import Canonmark.Toml.Scalar

/-!
# TOML documents

Keys with their values, one to a line, and headers that tell in which table they are.
-/

namespace Canonmark.Toml

private def skipBlanks (text : Text) : Text := text.dropWhile fun c => c = ' ' || c = '\t'

private def skipComment (text : Text) : Except Error Text :=
  match text with
  | '#' :: rest =>
      let comment := rest.takeWhile fun c => c ≠ '\n' && c ≠ '\r'
      if comment.any Scalar.isForbidden then .error .invalidCharacter
      else .ok (rest.drop comment.length)
  | _ => .ok text

private def eol? : Text → Option Text
  | '\n' :: rest => some rest
  | '\r' :: '\n' :: rest => some rest
  | _ => none

private def skipLines : Nat → Text → Except Error Text
  | 0, text => .ok text
  | fuel + 1, text => do
      let text ← skipComment (skipBlanks text)
      match eol? text with
      | some rest => skipLines fuel rest
      | none => return text

private def skipSpace (text : Text) : Except Error Text := skipLines (text.length + 1) text

/-- Passes the end of a line, where only a comment may stand. -/
private def endLine (text : Text) : Except Error Text := do
  let text ← skipComment (skipBlanks text)
  match text, eol? text with
  | [], _ => return []
  | _, some rest => return rest
  | _, none => throw .unexpectedText

private def isBareKeyCharacter (c : Char) : Bool := Ascii.isLetterOrDigit c || c = '_' || c = '-'

private def simpleKey (text : Text) : Except Error (Text × Text) :=
  match text with
  | '"' :: rest => Scalar.line '"' rest
  | '\'' :: rest => Scalar.line '\'' rest
  | _ =>
      let key := text.takeWhile isBareKeyCharacter
      if key.isEmpty then .error .invalidKey else .ok (key, text.drop key.length)

private def dottedKey : Nat → (path : List Text) → Text → Except Error (List Text × Text × Text)
  | 0, _, _ => .error .invalidKey
  | fuel + 1, path, text => do
      let (key, rest) ← simpleKey (skipBlanks text)
      match skipBlanks rest with
      | '.' :: rest => dottedKey fuel (path ++ [key]) rest
      | rest => return (path, key, rest)

private def readKey (text : Text) : Except Error (List Text × Text × Text) :=
  dottedKey (text.length + 1) [] text

/-- Most collections that lie in each other. -/
def maxDepth : Nat := 80

mutual

private def value (fuel depth : Nat) (text : Text) : Except Error (Value × Text) :=
  match fuel with
  | 0 => .error .unclosedCollection
  | fuel + 1 =>
      match text with
      | '"' :: rest => (Scalar.string '"' rest).map fun (text, rest) => (.string text, rest)
      | '\'' :: rest => (Scalar.string '\'' rest).map fun (text, rest) => (.string text, rest)
      | '[' :: rest =>
          if depth = 0 then .error .nestedTooDeeply
          else (items fuel (depth - 1) rest).map fun (items, rest) => (.array false items, rest)
      | '\x7b' :: rest =>
          if depth = 0 then .error .nestedTooDeeply
          else
            (fields fuel (depth - 1) [] rest).map fun (entries, rest) =>
              (.table .inlined entries, rest)
      | _ => Scalar.bare text

private def items (fuel depth : Nat) (text : Text) : Except Error (List Value × Text) :=
  match fuel with
  | 0 => .error .unclosedCollection
  | fuel + 1 => do
      match ← skipSpace text with
      | ']' :: rest => return ([], rest)
      | text =>
          let (first, rest) ← value fuel depth text
          match ← skipSpace rest with
          | ',' :: rest =>
              let (others, rest) ← items fuel depth rest
              return (first :: others, rest)
          | ']' :: rest => return ([first], rest)
          | _ => throw .unclosedCollection

private def fields (fuel depth : Nat) (entries : Entries) (text : Text) :
    Except Error (Entries × Text) :=
  match fuel with
  | 0 => .error .unclosedCollection
  | fuel + 1 => do
      match ← skipSpace text with
      | '\x7d' :: rest => return (entries, rest)
      | text =>
          let (path, key, rest) ← readKey text
          match rest with
          | '=' :: rest =>
              let (found, rest) ← value fuel depth (skipBlanks rest)
              let entries ← entries.insert path key found
              match ← skipSpace rest with
              | ',' :: rest => fields fuel depth entries rest
              | '\x7d' :: rest => return (entries, rest)
              | _ => throw .unclosedCollection
          | _ => throw .invalidKey

end

/-- Reads a header: its tables, its key, and whether it adds to an array. -/
private def header (text : Text) : Except Error ((List Text × Text × Bool) × Text) := do
  match text with
  | '[' :: rest =>
      let (path, key, rest) ← readKey rest
      match rest with
      | ']' :: ']' :: rest => return ((path, key, true), rest)
      | _ => throw .invalidKey
  | _ =>
      let (path, key, rest) ← readKey text
      match rest with
      | ']' :: rest => return ((path, key, false), rest)
      | _ => throw .invalidKey

private def assign (table path : List Text) (key : Text) (found : Value) (root : Entries) :
    Except Error Entries :=
  Entries.within false (fun _ entries => entries.insert path key found) table .header root

private def linesFrom : Nat → (table : List Text) → Entries → Text → Except Error Entries
  | 0, _, root, _ => .ok root
  | fuel + 1, table, root, text => do
      match ← skipSpace text with
      | [] => return root
      | '[' :: rest =>
          let ((path, key, isItem), rest) ← header rest
          let root ← if isItem then root.openItem path key else root.openTable path key
          linesFrom fuel (path ++ [key]) root (← endLine rest)
      | text =>
          let (path, key, rest) ← readKey text
          match rest with
          | '=' :: rest =>
              let (found, rest) ← value (2 * rest.length + 2) maxDepth (skipBlanks rest)
              linesFrom fuel table (← assign table path key found root) (← endLine rest)
          | _ => throw .invalidKey

/-- The entries of a document; a byte order mark may stand in front of it. -/
def Entries.parse (text : Text) : Except Error Entries :=
  let text := if text.head? = some '\ufeff' then text.drop 1 else text
  linesFrom (text.length + 1) [] [] text

end Canonmark.Toml
