import Canonmark.Source.Container
import Canonmark.Source.RawHtml
import Canonmark.Source.Link
import Canonmark.Source.Extensions

/-!
# Starts of blocks

What the front of a line, behind its containers and indentation, may start.
-/

namespace Canonmark.Source

/-- Length of a line of at least three equal marks, with spaces between them. -/
def rule? (text : Text) : Option Nat :=
  match text with
  | [] => none
  | c :: _ =>
      if c = '*' || c = '-' || c = '_' then
        let line := text.takeWhile fun d => d = c || d = ' ' || d = '\t'
        match eol? (text.drop line.length) with
        | some n => if 3 ≤ line.countP (· = c) then some (line.length + n) else none
        | none => none
      else none

def headingLevel? (text : Text) : Option Nat :=
  let level := countWhile (· = '#') text
  let follows := match text.drop level with
    | [] => true
    | c :: _ => Ascii.isSpace c
  if 1 ≤ level && level ≤ 6 && follows then some level else none

def underline? (text : Text) : Option (Nat × Nat) :=
  match text with
  | [] => none
  | c :: _ =>
      if c = '=' || c = '-' then
        let n := countWhile (· = c) text
        (blankLine? (text.drop n)).map fun m => (if c = '=' then 1 else 2, n + m)
      else none

def fence? (text : Text) : Option (Nat × Char) :=
  match text with
  | [] => none
  | c :: _ =>
      if c = '\x60' || c = '~' then
        let n := countWhile (· = c) text
        let info := text.drop n
        if n < 3 || (c = '\x60' && (info.take (lineLength info)).contains c) then none
        else some (n, c)
      else none

/-- Length of a closing fence; the end of the text closes every fence. -/
def closingFence? (c : Char) (size : Nat) (text : Text) : Option Nat :=
  if text.isEmpty then some 0
  else
    let n := countWhile (· = c) text
    if n < size then none
    else
      let spaces := countWhile (· = ' ') (text.drop n)
      (eol? (text.drop (n + spaces))).map fun _ => n + spaces

def closingMetadata? (text : Text) : Option Nat :=
  let hyphens := countWhile (· = '-') text
  let dots := countWhile (· = '.') text
  if hyphens = 3 || dots = 3 then
    let spaces := countWhile (· = ' ') (text.drop 3)
    (eol? (text.drop (3 + spaces))).map fun _ => 3 + spaces
  else none

def metadataCloses : Nat → Text → Bool
  | 0, _ => false
  | fuel + 1, text =>
      if text.isEmpty then false
      else (closingMetadata? text).isSome || metadataCloses fuel (text.drop (lineLength text))

/-- Metadata stands behind three hyphens on a line; it is closed and does not start with a blank
line. -/
def startsMetadata (text : Text) : Bool :=
  let tail := text.drop 3
  let next := tail.drop (lineLength tail)
  countWhile (· = '-') text = 3 && (tail.take (lineLength tail)).all Ascii.isSpace
    && !isBlankLine next && (closingMetadata? next).isNone && metadataCloses next.length next

structure ItemMarker where
  marker : Char
  number : Nat
  /-- Where the content of the item stands. -/
  indent : Nat
  deriving Inhabited, Repr

def isBullet (c : Char) : Bool := c = '-' || c = '+' || c = '*'

def maxNumberLength : Nat := 9

def itemNumber? (text : Text) : Option (Nat × Char × Nat) :=
  let digits := text.takeWhile Ascii.isDigit
  match text.drop digits.length with
  | c :: _ =>
      if 1 ≤ digits.length && digits.length ≤ maxNumberLength && (c = '.' || c = ')') then
        some (digits.length + 1, c, Ascii.decimal digits)
      else none
  | [] => none

namespace LineHead

def itemMarker? (indent : Nat) (head : LineHead) : Option (ItemMarker × LineHead) :=
  match head.rest with
  | [] => none
  | c :: _ =>
      if isBullet c then
        if (rule? head.rest).isSome then none else finish c 0 1
      else
        (itemNumber? head.rest).bind fun (n, delimiter, number) => finish delimiter number n
where
  finish (marker : Char) (number width : Nat) : Option (ItemMarker × LineHead) :=
    let (spaced, next) := (head.advance width).takeExactly 1
    let indent := indent + width + 1
    if !(spaced || next.atEol) then none
    else if isBlankLine next.rest then some (⟨marker, number, indent⟩, next)
    else
      let (columns, content) := next.takeUpTo 4
      if columns < 4 then some (⟨marker, number, indent + columns⟩, content)
      else some (⟨marker, number, indent⟩, next)

def taskMarker? (head : LineHead) : Option (Bool × LineHead) :=
  let box := (head.takeUpTo 3).2
  match box.rest with
  | '[' :: c :: ']' :: d :: _ =>
      if !Ascii.isSpace d then none
      else if Ascii.isBlank c then some (false, box.advance 3)
      else if c = 'x' || c = 'X' then some (true, box.advance 3)
      else none
  | _ => none

end LineHead

/-- Whether two blank lines follow, the first of which may have begun before. -/
def isEmptyItem (text : Text) : Bool :=
  match blankLine? text with
  | some n => isBlankLine (text.drop n)
  | none => false

/--
An item at the front: its bullet or delimiter, number, and whether it is empty. The number zero
may be left out, which is enough to end a line of text but not to start an item.
-/
def itemStart? (text : Text) : Option (Char × Nat × Bool) :=
  let start (marker : Char) (number width : Nat) : Option (Char × Nat × Bool) :=
    let behind := text.drop width
    let follows := match behind with
      | [] => true
      | c :: _ => c = ' ' || c = '\t' || c = '\n' || c = '\r'
    if follows then some (marker, number, isEmptyItem behind) else none
  match text with
  | [] => none
  | c :: _ =>
      if isBullet c then start c 0 1
      else if c = '.' || c = ')' then start c 0 1
      else (itemNumber? text).bind fun (n, delimiter, number) => start delimiter number n

def footnoteLabel? (text : Text) : Option (Text × Nat) :=
  (Label.scan? (fun _ => none) text).bind fun (label, n) =>
    match text.drop n with
    | ':' :: _ => some (label, n + 1)
    | _ => none

def startsFootnote (text : Text) : Bool :=
  match text with
  | '[' :: '^' :: rest => (footnoteLabel? rest).isSome
  | _ => false

namespace Table

/--
Number of columns and length of the line between the head and the body of a table: hyphens and
colons between pipes.
-/
def separator? (text : Text) : Option (Nat × Nat) :=
  let (indent, head) := (LineHead.start text).takeUpTo 4
  if indent > 3 || head.rest.isEmpty then none
  else
    let line := head.rest.takeWhile fun c => c ≠ '\n' && c ≠ '\r'
    let ending := (eol? (head.rest.drop line.length)).getD 0
    let cells := if line.head? = some '|' then line.drop 1 else line
    (columns? 0 false true cells).bind fun n =>
      if line.contains '|' && line.contains '-' then some (n, head.taken + line.length + ending)
      else none
where
  columns? (n : Nat) (hyphen fresh : Bool) : Text → Option Nat
    | [] => some (if fresh then n else n + 1)
    | ' ' :: rest => columns? n hyphen fresh rest
    | ':' :: rest => columns? n hyphen false rest
    | '-' :: rest => columns? n true false rest
    | '|' :: rest => if hyphen then columns? (n + 1) false true rest else none
    | _ :: _ => none

/-- Columns of the head, from its pipes, the first and last of which may be its edges. -/
def headColumns (line : Text) (pipes : Nat) (behindLast : Text) : Nat :=
  let opened := (line.dropWhile Ascii.isBlank).head? = some '|'
  let pipes := if opened then pipes - 1 else pipes
  if isBlankLine behindLast then pipes else pipes + 1

/--
Pipes of a line that no backslash escapes: their number, and what is behind the last. Where
backslashes are paired, one that is escaped escapes nothing.
-/
def pipes (paired escaped : Bool) : Text → Nat × Text
  | [] => (0, [])
  | c :: rest =>
      if c = '\n' || c = '\r' then (0, [])
      else
        let (n, behind) := pipes paired (c = '\\' && !(paired && escaped)) rest
        if c = '|' && !escaped then (n + 1, if n = 0 then rest else behind) else (n, behind)

/--
Whether the line at the front, inside the containers, is the head of a table: the next line
separates as many columns. The result is what follows that line, and its position.
-/
def head? (containers : List Container) (paired : Bool) (text : Text) : Option (Nat × Text) :=
  let (n, behind) := pipes paired false text
  let line := countWhile (fun c => c ≠ '\n' && c ≠ '\r') text
  let next := line + ((eol? (text.drop line)).getD 0)
  if n = 0 || next = line then none
  else
    let (inside, head) := LineHead.within containers (text.drop next)
    if !inside then none
    else
      (separator? head.rest).bind fun (columns, length) =>
        if columns = headColumns text n behind then
          some (next + head.taken + length, head.rest.drop length)
        else none

end Table

/-- Whether a line that could continue a paragraph, or a table, starts a block of its own. -/
def startsBlock (extensions : Extensions) (inside inTable : Bool) (text : Text) : Bool :=
  (eol? text).isSome || (rule? text).isSome || (headingLevel? text).isSome
    || (fence? text).isSome || text.head? = some '>'
    || (itemStart? text).any (fun (marker, number, empty) =>
        !inside || inTable || ((isBullet marker || number = 1) && !empty))
    || (text.head? = some '<' && HtmlBlock.interrupts (text.drop 1))
    || (extensions.footnotes && startsFootnote text)

/-- Whether a line ends the paragraph before it. A table does so if it starts with a pipe. -/
def interrupts (extensions : Extensions) (containers : List Container) (inside : Bool)
    (text : Text) : Bool :=
  startsBlock extensions inside false text
    || (extensions.tables && text.head? = some '|' && (Table.head? containers false text).isSome)

end Canonmark.Source
