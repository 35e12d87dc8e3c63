import Canonmark.Files.Host
import Canonmark.Files.Path

/-!
# File trees

Files and directories as a value, with the errors that a path into them can meet.
-/

namespace Canonmark

inductive Content where
  | text (text : Text)
  /-- Bytes that are no text, under a name that tells them apart. -/
  | binary (name : Text)
  deriving DecidableEq, Inhabited, Repr

/-- Places are the names on the way from the root. -/
structure FileTree where
  files : List (List Text × Content)
  /-- The directories that are not implied by a file in them. -/
  directories : List (List Text) := []
  deriving Inhabited, Repr

namespace FileTree

inductive Entry where
  | file (content : Content)
  | directory
  deriving DecidableEq, Inhabited, Repr

def entry? (tree : FileTree) (place : List Text) : Option Entry :=
  match tree.files.lookup place with
  | some content => some (.file content)
  | none =>
      if place.isEmpty || tree.files.any (fun file => place.isPrefixOf file.1)
          || tree.directories.any (place.isPrefixOf ·) then
        some .directory
      else none

/-- Goes on from a place along the parts of a path, each of which starts in a directory. -/
def walk (tree : FileTree) (place : List Text) : List Text → Except IoError (List Text)
  | [] => .ok place
  | part :: rest =>
      match tree.entry? place with
      | none => .error .notFound
      | some (.file _) => .error .notADirectory
      | some .directory =>
          if part.isEmpty || part = ['.'] then walk tree place rest
          else if part = ['.', '.'] then walk tree place.dropLast rest
          else walk tree (place ++ [part]) rest

def locate (tree : FileTree) (directory : List Text) (path : Text) : Except IoError (List Text) :=
  if path.contains '\x00' then .error .invalidPath
  else if path.isEmpty then .error .notFound
  else walk tree (if Path.isAbsolute path then [] else directory) (Path.parts path)

def hasEntry (tree : FileTree) (directory : List Text) (path : Text) : Bool :=
  match tree.locate directory path with
  | .ok place => (tree.entry? place).isSome
  | .error _ => false

def readFile (tree : FileTree) (directory : List Text) (path : Text) : Except IoError Text :=
  match tree.locate directory path with
  | .error error => .error error
  | .ok place =>
      match tree.entry? place with
      | none => .error .notFound
      | some .directory => .error .isADirectory
      | some (.file (.binary _)) => .error .invalidText
      | some (.file (.text text)) => .ok text

def replaceFile (place : List Text) (content : Content) :
    List (List Text × Content) → List (List Text × Content)
  | [] => [(place, content)]
  | file :: rest =>
      if file.1 = place then (place, content) :: rest else file :: replaceFile place content rest

def writeFile (tree : FileTree) (directory : List Text) (path text : Text) :
    Except IoError FileTree :=
  match tree.locate directory path with
  | .error error => .error error
  | .ok place =>
      match tree.entry? place with
      | some .directory => .error .isADirectory
      | _ =>
          if tree.entry? place.dropLast = some .directory then
            .ok { tree with files := replaceFile place (.text text) tree.files }
          else .error .notFound

end FileTree

end Canonmark
