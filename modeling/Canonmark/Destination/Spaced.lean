import Canonmark.Text.FencedLines
import Canonmark.Text.Splice

/-!
# Destinations with spaces

A destination with white space in it is put between angle brackets, which is how Markdown writes
one, before the source is read. Fenced code and code spans are left as they are.
-/

namespace Canonmark.SpacedDestination

/-- Length of the backtick run at the front, with the code span that it opens if it is closed. -/
def codeSpanLength (text : Text) : Nat :=
  let size := (text.takeWhile (· = '\x60')).length
  size + (closing? size 0 (text.drop size)).getD 0
where
  closing? (size seen : Nat) : Text → Option Nat
    | [] => if seen = size && 0 < seen then some 0 else none
    | c :: rest =>
        if c = '\x60' then (closing? size (seen + 1) rest).map (· + 1)
        else if seen = size && 0 < seen then some 0
        else (closing? size 0 rest).map (· + 1)

/-- Length up to the parenthesis that closes the one in front, of which `depth` are inside. -/
def closingParen? (depth : Nat) : Text → Option Nat
  | [] => none
  | '\\' :: [] => none
  | '\\' :: _ :: rest => (closingParen? depth rest).map (· + 2)
  | c :: rest =>
      if c = '(' then (closingParen? (depth + 1) rest).map (· + 1)
      else if c = ')' then
        if depth = 0 then some 0 else (closingParen? (depth - 1) rest).map (· + 1)
      else if c = '\n' then none
      else (closingParen? depth rest).map (· + 1)

def behindTitle? (close : Char) : Text → Option Text
  | [] => none
  | '\\' :: [] => none
  | '\\' :: d :: rest => if d = '\n' then none else behindTitle? close rest
  | c :: rest => if c = close then some rest else behindTitle? close rest

def isTitle : Text → Bool
  | '"' :: rest => (behindTitle? '"' rest).any Unicode.isBlank
  | '\'' :: rest => (behindTitle? '\'' rest).any Unicode.isBlank
  | '(' :: rest => (behindTitle? ')' rest).any Unicode.isBlank
  | _ => false

/-- White space, or a title between white space: what may stand behind a destination. -/
def isTail (text : Text) : Bool :=
  let content := text.dropWhile Unicode.isWhitespace
  content.isEmpty || (content.length < text.length && isTitle content)

def beforeTail : Text → Text
  | [] => []
  | c :: rest => if isTail (c :: rest) then [] else c :: beforeTail rest

/-- The part of what stands in parentheses that is a destination with white space in it. -/
def find? (inner : Text) : Option Span :=
  let content := inner.dropWhile Unicode.isWhitespace
  let destination := beforeTail content
  if content.head? = some '<' || !destination.any Unicode.isWhitespace
      || destination.contains '<' || destination.contains '>'
      || destination.getLast? = some '\\' then
    none
  else
    let start := inner.length - content.length
    some (.ofLength start destination.length)

/-- Destinations with white space on a line, behind `depth` open brackets. -/
def onLine : (fuel depth position : Nat) → Text → List Span
  | 0, _, _, _ => []
  | _, _, _, [] => []
  | fuel + 1, depth, position, c :: rest =>
      if c = '\\' then onLine fuel depth (position + 2) (rest.drop 1)
      else if c = '\x60' then
        let n := codeSpanLength (c :: rest)
        onLine fuel depth (position + n) ((c :: rest).drop n)
      else if c = '[' then onLine fuel (depth + 1) (position + 1) rest
      else if c = ']' && 0 < depth && rest.head? = some '(' then
        let start := position + 2
        let inner := rest.drop 1
        match closingParen? 0 inner with
        | none => onLine fuel (depth - 1) start inner
        | some n =>
            let found := (find? (inner.take n)).map (Span.shift start)
            found.toList ++ onLine fuel (depth - 1) (start + n + 1) (inner.drop (n + 1))
      else onLine fuel depth (position + 1) rest

def onLines (state : FencedLines.State) (position : Nat) : List Text → List Span
  | [] => []
  | line :: rest =>
      let (state, fenced) := FencedLines.step state line
      let found := if fenced then [] else onLine line.length 0 position line
      found ++ onLines state (position + line.length) rest

def spans (source : Text) : List Span := onLines none 0 (Text.lineSegments source)

/-- A source with brackets in it, and the ascending positions of the brackets. -/
structure Wrapped where
  text : Text
  inserted : List Nat
  deriving DecidableEq, Inhabited, Repr

def insertedFrom (count : Nat) : List Span → List Nat
  | [] => []
  | span :: rest => (span.start + count) :: (span.stop + count + 1) :: insertedFrom (count + 2) rest

def wrap? (source : Text) : Option Wrapped :=
  match spans source with
  | [] => none
  | found =>
      let edits := found.flatMap fun span =>
        [Edit.insertion span.start ['<'], Edit.insertion span.stop ['>']]
      some ⟨Splice.apply edits source, insertedFrom 0 found⟩

end Canonmark.SpacedDestination
