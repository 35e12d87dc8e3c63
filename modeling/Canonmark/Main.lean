import Canonmark.Command.Run

/-!
# The command line

Runs a command line on the machine itself.
-/

namespace Canonmark

private def ioError : IO.Error → IoError
  | .noFileOrDirectory .. => .notFound
  | .inappropriateType .. => .isADirectory
  | error => .other (toString error).toList

private def decode (bytes : ByteArray) : Except IoError Text :=
  match String.fromUTF8? bytes with
  | some text => .ok text.toList
  | none => .error .invalidText

private def attemptIO {α : Type} (action : IO α) : IO (Except IoError α) := do
  match ← action.toBaseIO with
  | .ok value => return .ok value
  | .error error => return .error (ioError error)

private partial def readAll (stream : IO.FS.Stream) (bytes : ByteArray) : IO ByteArray := do
  let more ← stream.read 65536
  if more.isEmpty then return bytes else readAll stream (bytes ++ more)

private def machine : Host IO where
  workingDirectory := return some (← IO.currentDir).toString.toList
  hasEntry path := do
    match ← attemptIO (IO.FS.Handle.mk (String.ofList path) .read) with
    | .ok _ => return true
    | .error error => return error ≠ .notFound
  readFile path := do
    return (← attemptIO (IO.FS.readBinFile (String.ofList path))).bind decode
  writeFile path text := attemptIO (IO.FS.writeFile (String.ofList path) (String.ofList text))
  variableValue name := return (← IO.getEnv (String.ofList name)).map String.toList
  readInput := do
    let stream ← IO.getStdin
    return (← attemptIO (readAll stream ByteArray.empty)).bind decode
  print text := attemptIO do
    (← IO.getStdout).putStr (String.ofList text)
  report text := discard <| attemptIO do
    (← IO.getStderr).putStr (String.ofList text)

end Canonmark

def main (words : List String) : IO UInt32 := do
  return (← Canonmark.Command.run Canonmark.machine (words.map String.toList)).toUInt32
