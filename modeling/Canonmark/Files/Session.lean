import Canonmark.Files.Tree

/-!
# Sessions

A host that is a value: a file tree with a working directory, variables and an input, and what a
program has written so far.
-/

namespace Canonmark

structure Session where
  tree : FileTree
  directory : List Text := []
  environment : List (Text × Text) := []
  input : Content := .text []
  printed : Text := []
  reported : Text := []
  deriving Inhabited, Repr

namespace Session

def workingDirectory (session : Session) : Text := '/' :: Text.joinWith ['/'] session.directory

def host : Host (StateM Session) where
  workingDirectory := return some (← get).workingDirectory
  hasEntry path := return (← get).tree.hasEntry (← get).directory path
  readFile path := return (← get).tree.readFile (← get).directory path
  writeFile path text := do
    match (← get).tree.writeFile (← get).directory path text with
    | .ok tree =>
        modify fun session => { session with tree := tree }
        return .ok ()
    | .error error => return .error error
  variableValue name := return (← get).environment.lookup name
  readInput :=
    return match (← get).input with
      | .text text => .ok text
      | .binary _ => .error .invalidText
  print text := do
    modify fun session => { session with printed := session.printed ++ text }
    return .ok ()
  report text := modify fun session => { session with reported := session.reported ++ text }

end Session

end Canonmark
