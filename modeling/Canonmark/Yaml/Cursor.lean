import Canonmark.Text.Ascii

/-!
# Cursors

A place in a text of YAML: what is left of it, and where its lines are. Lines end with more
characters than a line feed; all but the line and paragraph separators are read as one.
-/

namespace Canonmark.Yaml

inductive Error where
  | controlCharacter
  | misplacedIndicator
  | misplacedTab
  | missingColon
  | unclosedScalar
  | unknownEscape
  | invalidBlockHeader
  | invalidAnchor
  | invalidTag
  | invalidDirective
  | unexpectedToken
  | unknownAnchor
  | unknownTagHandle
  | severalDocuments
  deriving DecidableEq, Inhabited, Repr

def isAllowed (c : Char) : Bool :=
  let n := c.toNat
  n = 9 || n = 10 || n = 13 || (0x20 ≤ n && n ≤ 0x7e) || n = 0x85 || (0xa0 ≤ n && n ≤ 0xd7ff)
    || (0xe000 ≤ n && n ≤ 0xfffd && n ≠ 0xfeff) || 0x10000 ≤ n

def isBreak (c : Char) : Bool :=
  c = '\n' || c = '\r' || c = '\u0085' || c = '\u2028' || c = '\u2029'

def isBlank (c : Char) : Bool := c = ' ' || c = '\t'

def isNameCharacter (c : Char) : Bool := Ascii.isLetterOrDigit c || c = '_' || c = '-'

def endsLine (text : Text) : Bool := text.head?.all isBreak

def endsWord (text : Text) : Bool := text.head?.all fun c => isBlank c || isBreak c

structure Cursor where
  rest : Text
  line : Nat := 0
  column : Nat := 0
  offset : Nat := 0
  deriving Inhabited, Repr

namespace Cursor

def skip (n : Nat) (cursor : Cursor) : Cursor :=
  { cursor with
    rest := cursor.rest.drop n, column := cursor.column + n, offset := cursor.offset + n }

def skipWhile (p : Char → Bool) (cursor : Cursor) : Cursor :=
  cursor.skip (cursor.rest.takeWhile p).length

private def newline (n : Nat) (cursor : Cursor) : Cursor :=
  ⟨cursor.rest.drop n, cursor.line + 1, 0, cursor.offset + n⟩

def break? (cursor : Cursor) : Option (Text × Cursor) :=
  match cursor.rest with
  | '\r' :: '\n' :: _ => some (['\n'], cursor.newline 2)
  | c :: _ =>
      if c = '\u2028' || c = '\u2029' then some ([c], cursor.newline 1)
      else if isBreak c then some (['\n'], cursor.newline 1)
      else none
  | [] => none

def skipBreak (cursor : Cursor) : Cursor :=
  match cursor.break? with
  | some (_, next) => next
  | none => cursor

def skipLine (cursor : Cursor) : Cursor := cursor.skipWhile (!isBreak ·)

def atMarker (marker : String) (cursor : Cursor) : Bool :=
  cursor.column = 0 && marker.toList.isPrefixOf cursor.rest && endsWord (cursor.rest.drop 3)

def atDocumentMarker (cursor : Cursor) : Bool :=
  cursor.atMarker "---" || cursor.atMarker "..."

end Cursor

/-- White space between the words of a scalar. -/
structure Gap where
  blanks : Text := []
  /-- The first line break, if there is one; it is empty when it was escaped. -/
  first : Option Text := none
  others : Text := []
  deriving Inhabited, Repr

namespace Gap

/-- A single line break is a space; of several the first is dropped. -/
def text (gap : Gap) : Text :=
  match gap.first with
  | none => gap.blanks
  | some ['\n'] => if gap.others.isEmpty then [' '] else gap.others
  | some first => first ++ gap.others

private def readFrom (indent : Nat) : Nat → Gap → Cursor → Except Error (Gap × Cursor)
  | 0, gap, cursor => .ok (gap, cursor)
  | fuel + 1, gap, cursor =>
      match cursor.break? with
      | some (text, next) =>
          match gap.first with
          | none => readFrom indent fuel ⟨[], some text, []⟩ next
          | some _ => readFrom indent fuel { gap with others := gap.others ++ text } next
      | none =>
          match cursor.rest with
          | [] => .ok (gap, cursor)
          | c :: _ =>
              if !isBlank c then .ok (gap, cursor)
              else if gap.first.isNone then
                readFrom indent fuel { gap with blanks := gap.blanks ++ [c] } (cursor.skip 1)
              else if c = '\t' && cursor.column < indent then .error .misplacedTab
              else readFrom indent fuel gap (cursor.skip 1)

/-- Reads on in a gap. Left of `indent` there are no tabulators. -/
def read (indent : Nat) (gap : Gap) (cursor : Cursor) : Except Error (Gap × Cursor) :=
  readFrom indent (cursor.rest.length + 1) gap cursor

end Gap

end Canonmark.Yaml
