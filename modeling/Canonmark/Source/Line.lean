import Canonmark.Text.Ascii

/-!
# Lines

Measures at the front of a text, and the reading head that counts the columns of a line's
indentation. A tabulator fills columns up to the next stop; a head that has taken only some of
them holds the others as pending.
-/

namespace Canonmark.Source

def countWhile (p : Char → Bool) (text : Text) : Nat := (text.takeWhile p).length

/-- Length of the line ending at the front; the end of the text is one of length zero. -/
def eol? : Text → Option Nat
  | [] => some 0
  | '\n' :: _ => some 1
  | '\r' :: '\n' :: _ => some 2
  | '\r' :: _ => some 1
  | _ :: _ => none

def blankLine? (text : Text) : Option Nat :=
  (eol? (text.dropWhile Ascii.isBlank)).map (· + countWhile Ascii.isBlank text)

def isBlankLine (text : Text) : Bool := (blankLine? text).isSome

def lineLength : Text → Nat
  | [] => 0
  | c :: rest => if c = '\n' then 1 else lineLength rest + 1

structure LineHead where
  rest : Text
  /-- Characters taken since the start of the line. -/
  taken : Nat
  /-- Where columns are counted from: the start of the line or the last tabulator. -/
  stop : Nat
  /-- Columns of a tabulator that are not taken yet. -/
  pending : Nat
  deriving Inhabited, Repr

namespace LineHead

def start (line : Text) : LineHead := ⟨line, 0, 0, 0⟩

def atEol (head : LineHead) : Bool :=
  match head.rest with
  | [] => true
  | c :: _ => c = '\n' || c = '\r'

def takeColumns (taken stop columns : Nat) : Text → Nat × LineHead
  | [] => (columns, ⟨[], taken, stop, 0⟩)
  | c :: rest =>
      if columns = 0 then (0, ⟨c :: rest, taken, stop, 0⟩)
      else if c = ' ' then takeColumns (taken + 1) stop (columns - 1) rest
      else if c = '\t' then
        let width := 4 - (taken - stop) % 4
        if columns < width then (0, ⟨rest, taken + 1, taken + 1, width - columns⟩)
        else takeColumns (taken + 1) (taken + 1) (columns - width) rest
      else (columns, ⟨c :: rest, taken, stop, 0⟩)

/-- Takes up to `columns` columns of indentation and tells how many were missing. -/
def takeMissing (columns : Nat) (head : LineHead) : Nat × LineHead :=
  if columns ≤ head.pending then (0, { head with pending := head.pending - columns })
  else takeColumns head.taken head.stop (columns - head.pending) head.rest

def takeExactly (columns : Nat) (head : LineHead) : Bool × LineHead :=
  let (missing, head) := head.takeMissing columns
  (missing = 0, head)

def takeUpTo (columns : Nat) (head : LineHead) : Nat × LineHead :=
  let (missing, head) := head.takeMissing columns
  (columns - missing, head)

def advance (n : Nat) (head : LineHead) : LineHead :=
  { head with rest := head.rest.drop n, taken := head.taken + n }

def takeAll (head : LineHead) : LineHead :=
  let isIndent := fun c => c = ' ' || c = '\t'
  { head with
    rest := head.rest.dropWhile isIndent
    taken := head.taken + countWhile isIndent head.rest
    pending := 0 }

end LineHead

end Canonmark.Source
