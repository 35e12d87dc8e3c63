import Canonmark.Text.Ascii
import Canonmark.Text.Table.Entities

/-!
# Character references and escapes

`&name;`, `&#1234;` and `&#x4d2;` stand for characters, and a backslash takes the meaning of the
ASCII punctuation after it.
-/

namespace Canonmark

namespace Entity

def named? (name : Text) : Option Text :=
  match name with
  | [] => none
  | c :: _ =>
      ((Table.Entities.startingWith c).find? fun entry => entry.1.toList == name).map
        fun entry => entry.2.map Char.ofNat

def replacement : Char := '\ufffd'

/-- The character with a code point; zero and what is no code point are replaced. -/
def ofCodePoint (n : Nat) : Char :=
  if n = 0 then replacement
  else if n.isValidChar then Char.ofNat n
  else replacement

def numeric? (p : Char → Bool) (limit : Nat) (value : Text → Nat) (text : Text) :
    Option (Nat × Text) :=
  let digits := (text.take limit).takeWhile p
  if digits.isEmpty then none
  else
    match text.drop digits.length with
    | ';' :: _ => some (digits.length + 1, [ofCodePoint (value digits)])
    | _ => none

def reference? : Text → Option (Nat × Text)
  | '#' :: 'x' :: rest => (numeric? Ascii.isHexDigit 6 Ascii.hexadecimal rest).map (skip 2)
  | '#' :: 'X' :: rest => (numeric? Ascii.isHexDigit 6 Ascii.hexadecimal rest).map (skip 2)
  | '#' :: rest => (numeric? Ascii.isDigit 7 Ascii.decimal rest).map (skip 1)
  | text =>
      let name := text.takeWhile Ascii.isLetterOrDigit
      match text.drop name.length with
      | ';' :: _ => (named? name).map fun value => (name.length + 1, value)
      | _ => none
where
  skip (n : Nat) (found : Nat × Text) : Nat × Text := (found.1 + n, found.2)

end Entity

namespace Escape

/-- Resolves escapes and character references, and drops carriage returns. -/
def resolveFrom : Nat → Text → Text
  | _, [] => []
  | skip + 1, _ :: rest => resolveFrom skip rest
  | 0, c :: rest =>
      if c = '\\' then
        match rest with
        | d :: _ =>
            if Ascii.isPunctuation d then d :: resolveFrom 1 rest else c :: resolveFrom 0 rest
        | [] => [c]
      else if c = '&' then
        match Entity.reference? rest with
        | some (n, value) => value ++ resolveFrom n rest
        | none => c :: resolveFrom 0 rest
      else if c = '\r' then resolveFrom 0 rest
      else c :: resolveFrom 0 rest

def resolve (text : Text) : Text := resolveFrom 0 text

end Escape

end Canonmark
