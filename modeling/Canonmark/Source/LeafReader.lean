import Canonmark.Source.BlockTree

/-!
# Reading leaf blocks

Code, HTML, metadata, headings, tables and paragraphs. Each reader starts behind the containers
and the indentation of the first line, and tells what it read and where it stopped.
-/

namespace Canonmark.Source

structure LeafRead where
  leaf : LeafBlock
  span : Span
  position : Nat
  rest : Text
  deriving Inhabited

namespace LeafReader

/-- A line with its ending; a carriage return before the last character is left out. -/
def lineParts (position : Nat) (line : Text) : List (Text × Span) :=
  let n := line.length
  if 2 ≤ n && (line.drop (n - 2)).head? = some '\r' then
    [(line.take (n - 2), .ofLength position (n - 2)),
      (line.drop (n - 1), .ofLength (position + n - 1) 1)]
  else [(line, .ofLength position n)]

/-- The line at the front, behind as many spaces as its indentation has left. -/
def literalLine (kind : Text → LiteralPiece) (indent position : Nat) (text : Text) :
    List LocatedPiece :=
  let spaces : List LocatedPiece :=
    if indent = 0 then []
    else [(.text (List.replicate indent ' '), .ofLength position 0)]
  let parts := (lineParts position (text.take (lineLength text))).filter (!·.1.isEmpty)
  spaces ++ parts.map fun (part, span) => (kind part, span)

structure CodeLines where
  pieces : List LocatedPiece
  stop : Nat

/-- The result tells whether the last line was blank, and what follows it. -/
def indentedFrom (containers : List Container) :
    Nat → (all : List LocatedPiece) → (kept : CodeLines) → (blank : Bool) →
      (indent position : Nat) → Text → CodeLines × Bool × Nat × Text
  | 0, _, kept, blank, _, position, text => (kept, blank, position, text)
  | fuel + 1, all, kept, blank, indent, position, text =>
      let all := (literalLine .text indent position text).reverse ++ all
      let n := lineLength text
      let position := position + n
      let text := text.drop n
      let kept := if blank then kept else ⟨all, position⟩
      let (inside, head) := LineHead.within containers text
      let (indented, next) := head.takeExactly 4
      if !inside || !(indented || next.atEol) || next.rest.isEmpty then
        (kept, blank, position, text)
      else
        indentedFrom containers fuel all kept (isBlankLine next.rest) next.pending
          (position + next.taken) next.rest

def indentedCode (containers : List Container) (indent position : Nat) (text : Text) :
    LeafRead × Bool :=
  let (code, blank, stop, rest) :=
    indentedFrom containers (text.length + 1) [] ⟨[], 0⟩ false indent position text
  (⟨.code none code.pieces.reverse, .upTo position code.stop, stop, rest⟩, blank)

def fencedFrom (containers : List Container) (indent : Nat) (char : Char) (size : Nat) :
    Nat → (pieces : List LocatedPiece) → (position : Nat) → Text →
    List LocatedPiece × Nat × Nat × Text
  | 0, pieces, position, text => (pieces, position, position, text)
  | fuel + 1, pieces, position, text =>
      let (inside, head) := LineHead.within containers text
      if !inside then (pieces, position, position, text)
      else
        let content := (head.takeExactly indent).2
        let (indented, closing) := content.takeExactly (4 - indent)
        match if indented then none else closingFence? char size closing.rest with
        | some n =>
            let stop := position + closing.taken + n
            let rest := closing.rest.drop n
            let ending := (blankLine? rest).getD 0
            (pieces, stop, stop + ending, rest.drop ending)
        | none =>
            let start := position + content.taken
            let n := lineLength content.rest
            fencedFrom containers indent char size fuel
              ((literalLine .text content.pending start content.rest).reverse ++ pieces)
              (start + n) (content.rest.drop n)

def fencedCode (containers : List Container) (indent position : Nat) (char : Char) (size : Nat)
    (text : Text) : LeafRead :=
  let behind := text.drop size
  let blanks := countWhile Ascii.isBlank behind
  let written := behind.drop blanks
  let n := lineLength written
  let info := Text.dropEndWhile Ascii.isSpace (written.take n)
  let (pieces, stop, next, rest) :=
    fencedFrom containers indent char size (text.length + 1) []
      (position + size + blanks + n) (written.drop n)
  ⟨.code (some (Escape.resolve info)) pieces.reverse, .upTo position stop, next, rest⟩

def metadataFrom (containers : List Container) :
    Nat → (pieces : List LocatedPiece) → (position : Nat) → Text → List LocatedPiece × Nat × Text
  | 0, pieces, position, text => (pieces, position, text)
  | fuel + 1, pieces, position, text =>
      let (inside, head) := LineHead.within containers text
      if !inside then (pieces, position, text)
      else
        match closingMetadata? text with
        | some n => (pieces, position + n, text.drop n)
        | none =>
            let start := position + head.taken
            let n := lineLength head.rest
            metadataFrom containers fuel
              ((literalLine .text head.pending start head.rest).reverse ++ pieces)
              (start + n) (head.rest.drop n)

def metadata (containers : List Container) (position : Nat) (text : Text) : LeafRead :=
  let n := lineLength text
  let (pieces, stop, rest) :=
    metadataFrom containers (text.length + 1) [] (position + n) (text.drop n)
  let ending := (blankLine? rest).getD 0
  ⟨.metadata pieces.reverse, .upTo position stop, stop + ending, rest.drop ending⟩

/-- The result is the end of the block and the text from which reading goes on. -/
def htmlFrom (containers : List Container) (ends : HtmlEnd) :
    Nat → (pieces : List LocatedPiece) → (indent position : Nat) → Text →
      List LocatedPiece × Nat × Nat × Text
  | 0, pieces, _, position, text => (pieces, position, position, text)
  | fuel + 1, pieces, indent, position, text =>
      let pieces := (literalLine .html indent position text).reverse ++ pieces
      let n := lineLength text
      let line := text.take n
      let next := position + n
      let rest := text.drop n
      let (inside, head) := LineHead.within containers rest
      let content := next + head.taken
      let done : Option Nat :=
        match ends with
        | .mark mark =>
            if !inside || Text.hasInfix mark line then some next
            else if head.rest.isEmpty then some content
            else none
        | .blank =>
            if !inside || head.atEol then some next
            else if isBlankLine head.rest then some content
            else none
      match done with
      | some stop => (pieces, stop, next, rest)
      | none => htmlFrom containers ends fuel pieces head.pending content head.rest

def html (containers : List Container) (ends : HtmlEnd) (indent position : Nat) (text : Text) :
    LeafRead :=
  let (pieces, stop, next, rest) :=
    htmlFrom containers ends (text.length + 1) [] indent position text
  ⟨.html pieces.reverse, .upTo position stop, next, rest⟩

/-- Length of a heading's text without the hashes and spaces at its end. -/
def headingContent (line : Text) : Nat :=
  let isEnd := fun c => c = '\n' || c = '\r' || c = ' '
  let content := Text.dropEndWhile isEnd line
  let unclosed := Text.dropEndWhile (· = '#') content
  if unclosed.isEmpty then 0
  else
    let trimmed := Text.dropEndWhile (· = ' ') unclosed
    if trimmed.length < unclosed.length then trimmed.length else content.length

def endLast (stop : Nat) : List Token → List Token
  | [] => []
  | token :: tokens => { token with span := .upTo token.span.start stop } :: tokens

/-- A backslash at the end of a line that no other line of its block follows is text. -/
def pushBackslash (line : TokenLine) : List Token :=
  match line.lineBreak with
  | some ⟨.hardBreak true, span⟩ => Token.pushText span.start (span.start + 1) line.tokens
  | _ => line.tokens

def heading (extensions : Extensions) (position level : Nat) (text : Text) : LeafRead :=
  let behind := text.drop level
  match eol? behind with
  | some n =>
      let stop := position + level + n
      ⟨.heading level [], .upTo position stop, stop, behind.drop n⟩
  | none =>
      let blanks := countWhile Ascii.isBlank behind
      let start := position + level + blanks
      let content := behind.drop blanks
      let line := TokenLine.read extensions [] start content
      let size := headingContent (content.take (line.position - start))
      let tokens := endLast (start + size) (pushBackslash line)
      ⟨.heading level tokens.reverse, .upTo position line.position, line.position, line.rest⟩

def maxMissingCells : Nat := Nat.pow 2 18

def cells : Nat → Text → Nat
  | 0, _ => 0
  | fuel + 1, text =>
      let text := (if text.head? = some '|' then text.drop 1 else text).dropWhile Ascii.isBlank
      if (eol? text).isSome then 0 else 1 + cells fuel (afterCell text)
where
  afterCell : Text → Text
    | [] => []
    | '\\' :: '|' :: rest => afterCell rest
    | c :: rest =>
        if c = '|' || c = '\n' || c = '\r' then c :: rest else afterCell rest

def tableRows (extensions : Extensions) (containers : List Container) (columns : Nat) :
    Nat → (missing position : Nat) → Text → Nat × Text
  | 0, _, position, text => (position, text)
  | fuel + 1, missing, position, text =>
      let (inside, head) := LineHead.within containers text
      let row := head.takeAll
      let n := cells (row.rest.length + 1) row.rest
      let missing := missing + (columns - n)
      if !inside || startsBlock extensions inside true row.rest || n = 0
          || missing > maxMissingCells then
        (position, text)
      else
        let line := countWhile (fun c => c ≠ '\n' && c ≠ '\r') row.rest
        let size := line + (eol? (row.rest.drop line)).getD 0
        tableRows extensions containers columns fuel missing (position + row.taken + size)
          (row.rest.drop size)

def tableBody (extensions : Extensions) (containers : List Container) (columns : Nat)
    (position : Nat) (text : Text) : Nat × Text :=
  tableRows extensions containers columns (text.length + 1) 0 position text

def paragraphFrom (extensions : Extensions) (containers : List Container)
    (start : Nat) : Nat → (tokens : List Token) → (position : Nat) → Text → LeafRead
  | 0, tokens, position, text =>
      ⟨.paragraph false tokens.reverse, .upTo start position, position, text⟩
  | fuel + 1, tokens, position, text =>
      let line := TokenLine.read extensions tokens position text
      let (inside, head) := LineHead.within containers line.rest
      let (indented, next) := head.takeExactly 4
      match if inside && !indented then underline? next.rest else none with
      | some (level, n) =>
          let stop := line.position + next.taken + n
          ⟨.heading level (pushBackslash line).reverse, .upTo start stop, stop, next.rest.drop n⟩
      | none =>
          let content := next.takeAll
          if (!indented && interrupts extensions containers inside next.rest)
              || content.atEol then
            ⟨.paragraph false (pushBackslash line).reverse, .upTo start line.position,
              line.position, line.rest⟩
          else
            paragraphFrom extensions containers start fuel
              (line.lineBreak.toList ++ line.tokens) (line.position + content.taken)
              content.rest

/-- Whether an odd number of backslashes ends the line at the front. -/
def endsEscaped (text : Text) : Bool :=
  let line := text.takeWhile fun c => c ≠ '\n' && c ≠ '\r'
  let behind := text.drop (line.length + (eol? (text.drop line.length)).getD 0)
  countWhile (· = '\\') line.reverse % 2 = 1 && !behind.isEmpty

/-- Reads a paragraph, behind a check box if there is one, or what it turns out to be. -/
def paragraph (extensions : Extensions) (containers : List Container) (task : Option Token)
    (position : Nat) (text : Text) : LeafRead :=
  let tables := extensions.tables && !endsEscaped text
  match if tables then Table.head? containers true text else none with
  | some (n, rest) =>
      let (pipes, behind) := Table.pipes true false text
      let columns := Table.headColumns text pipes behind
      let (stop, rest) := tableBody extensions containers columns (position + n) rest
      ⟨.table, .upTo position stop, stop, rest⟩
  | none =>
      paragraphFrom extensions containers position (text.length + 1) task.toList position text

end LeafReader

end Canonmark.Source
