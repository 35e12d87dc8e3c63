import Canonmark.Text.Basic

/-!
# ASCII classes

The classes of characters that the syntax of Markdown, TOML and YAML is written in.
-/

namespace Canonmark.Ascii

def isPunctuation (c : Char) : Bool :=
  ('!' ≤ c && c ≤ '/') || (':' ≤ c && c ≤ '@') || ('[' ≤ c && c ≤ '\x60')
    || ('\x7b' ≤ c && c ≤ '~')

def isLetter (c : Char) : Bool :=
  ('a' ≤ c && c ≤ 'z') || ('A' ≤ c && c ≤ 'Z')

def isDigit (c : Char) : Bool := '0' ≤ c && c ≤ '9'

def isLetterOrDigit (c : Char) : Bool := isLetter c || isDigit c

def isHexDigit (c : Char) : Bool :=
  isDigit c || ('a' ≤ c && c ≤ 'f') || ('A' ≤ c && c ≤ 'F')

def isControl (c : Char) : Bool := c < ' ' || c = '\x7f'

/-- Space, tabulators and form feed: whitespace that stays on its line. -/
def isBlank (c : Char) : Bool :=
  c = ' ' || c = '\t' || c = '\x0b' || c = '\x0c'

def isSpace (c : Char) : Bool := isBlank c || c = '\n' || c = '\r'

def lower (c : Char) : Char :=
  if 'A' ≤ c && c ≤ 'Z' then Char.ofNat (c.toNat + 32) else c

def equalsIgnoringCase (a b : Text) : Bool := a.map lower == b.map lower

def digitValue (c : Char) : Nat := c.toNat - '0'.toNat

def hexValue (c : Char) : Nat :=
  if isDigit c then digitValue c else (lower c).toNat - 'a'.toNat + 10

def decimal (digits : Text) : Nat :=
  digits.foldl (fun n c => 10 * n + digitValue c) 0

def hexadecimal (digits : Text) : Nat :=
  digits.foldl (fun n c => 16 * n + hexValue c) 0

def ofNat (n : Nat) : Text := Nat.toDigits 10 n

end Canonmark.Ascii
