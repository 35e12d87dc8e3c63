import Canonmark.Text.Basic

/-!
# Hosts

What a program needs from the machine it runs on: files, variables and streams of text. Programs
are written for any host.
-/

namespace Canonmark

inductive IoError where
  | notFound
  | notADirectory
  | isADirectory
  | invalidPath
  /-- Bytes that are no text. -/
  | invalidText
  | other (message : Text)
  deriving DecidableEq, Inhabited, Repr

def IoError.message : IoError → Text
  | .notFound => "No such file or directory (os error 2)".toList
  | .notADirectory => "Not a directory (os error 20)".toList
  | .isADirectory => "Is a directory (os error 21)".toList
  | .invalidPath => "file name contained an unexpected NUL byte".toList
  | .invalidText => "stream did not contain valid UTF-8".toList
  | .other message => message

structure Host (m : Type → Type) where
  /-- An absolute path. -/
  workingDirectory : m (Option Text)
  hasEntry : Text → m Bool
  readFile : Text → m (Except IoError Text)
  writeFile : Text → Text → m (Except IoError Unit)
  variableValue : Text → m (Option Text)
  readInput : m (Except IoError Text)
  print : Text → m (Except IoError Unit)
  /-- Writes to the stream for diagnostics; it does not matter whether that fails. -/
  report : Text → m Unit

end Canonmark
