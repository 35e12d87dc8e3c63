import Canonmark.Text.Basic

/-!
# Paths

Paths as they are written. Slashes separate their parts, and a path that starts with one is
absolute.
-/

namespace Canonmark.Path

def isAbsolute (path : Text) : Bool := path.head? = some '/'

/-- A path inside a directory; absolute paths are in no directory. -/
def join (directory path : Text) : Text :=
  if isAbsolute path || directory.isEmpty then path
  else if directory.getLast? = some '/' then directory ++ path
  else directory ++ '/' :: path

/-- Length of what no part of a path takes away: the root, or a leading dot. -/
def rootLength (path : Text) : Nat :=
  match path with
  | '/' :: _ => 1
  | ['.'] => 1
  | '.' :: '/' :: _ => 1
  | _ => 0

def splitLast (path : Text) : Text × Text :=
  let root := rootLength path
  let part := ((path.drop root).reverse.takeWhile (· ≠ '/')).reverse
  let before := path.take (path.length - part.length)
  (if root < before.length then before.dropLast else before, part)

def trimEnd : Nat → Text → Text
  | 0, path => path
  | fuel + 1, path =>
      if path.length ≤ rootLength path then path
      else
        let (before, part) := splitLast path
        if part.isEmpty || part = ['.'] then trimEnd fuel before else path

/-- The directory that a path is in. The root is in none. -/
def parent? (path : Text) : Option Text :=
  let path := trimEnd path.length path
  if path.length ≤ rootLength path then
    if path.head? = some '.' then some [] else none
  else
    let (before, _) := splitLast path
    some (trimEnd before.length before)

def ancestorsFrom : Nat → Text → List Text
  | 0, _ => []
  | fuel + 1, path =>
      path :: match parent? path with
        | some directory => ancestorsFrom fuel directory
        | none => []

/-- A directory and those it lies in, from the inside out. -/
def ancestors (directory : Text) : List Text := ancestorsFrom (directory.length + 1) directory

def parts (path : Text) : List Text :=
  Text.splitLines (path.map fun c => if c = '/' then '\n' else if c = '\n' then '/' else c)
    |>.map fun part => part.map fun c => if c = '/' then '\n' else c

end Canonmark.Path
