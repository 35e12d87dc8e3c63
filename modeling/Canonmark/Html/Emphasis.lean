import Canonmark.Html.Element
import Canonmark.Html.Piece
import Canonmark.Source.Reader
import Canonmark.Text.Splice

/-!
# Emphasis in HTML

In the text between tags, emphasis that is written as in Markdown becomes elements. The text is
read with the indentation of its lines removed, so that it is not taken for code. Any function that
finds the events of a text may do the reading.
-/

namespace Canonmark.Html

open Source (Located Tag SourceRead)

def unindentedLine (position : Nat) (line : Text) : List (Nat × Char) :=
  (line.zipIdx position).map (fun (c, i) => (i, c)) |>.dropWhile fun (_, c) => c = ' ' || c = '\t'

def unindentedFrom (position : Nat) : List Text → List (Nat × Char)
  | [] => []
  | line :: rest => unindentedLine position line ++ unindentedFrom (position + line.length) rest

/-- What stands behind the indentation of the lines of a text that starts at `position`. -/
def unindented (position : Nat) (text : Text) : List (Nat × Char) :=
  unindentedFrom position (Text.lineSegments text)

/-- An element that stands for a delimiter, and the width of the delimiter. -/
structure Delimiter where
  element : Text
  width : Nat
  deriving DecidableEq, Inhabited, Repr

namespace Delimiter

def ofTag? : Tag → Option Delimiter
  | .emphasis => some ⟨"em".toList, 1⟩
  | .strong => some ⟨"strong".toList, 2⟩
  | _ => none

def opening (delimiter : Delimiter) : Text := '<' :: delimiter.element ++ ['>']

def closing (delimiter : Delimiter) : Text := '<' :: '/' :: delimiter.element ++ ['>']

def edits (delimiter : Delimiter) (origin : Nat → Nat) (span : Span) : List Edit :=
  [.replacement (origin span.start) delimiter.width delimiter.opening,
    .replacement (origin (span.stop - delimiter.width)) delimiter.width delimiter.closing]

end Delimiter

def emphasisSpans (events : List Located) : List (Delimiter × Span) :=
  events.filterMap fun (event, span) =>
    match event with
    | .enter tag => (Delimiter.ofTag? tag).map (·, span)
    | _ => none

section

variable (read : Text → List Located)

def emphasisEdits (position : Nat) (text : Text) : List Edit :=
  if text.any fun c => c = '*' || c = '_' then
    let kept := unindented position text
    let positions := (kept.map (·.1)).toArray
    let origin := fun place => positions.getD place (position + text.length)
    (emphasisSpans (read (kept.map (·.2)))).flatMap
      fun (delimiter, span) => delimiter.edits origin span
  else []

/-- Edits for pieces, the first of which starts at `position`. Literal content is kept. -/
def pieceEdits (position literalDepth : Nat) : List Piece → List Edit
  | [] => []
  | .text text :: rest =>
      (if literalDepth = 0 then emphasisEdits read position text else [])
        ++ pieceEdits (position + text.length) literalDepth rest
  | .tag text :: rest =>
      pieceEdits (position + text.length) (Nesting.literalDepthAfter literalDepth text) rest

/-- HTML with elements for the emphasis in its text. Tags and literal content are kept. -/
def markEmphasisWith (html : Text) : Text :=
  Splice.apply (pieceEdits read 0 0 (Piece.split html)) html

end

def readPlain (text : Text) : List Located := (SourceRead.ofSource Extensions.none text).events

def markEmphasis (html : Text) : Text := markEmphasisWith readPlain html

end Canonmark.Html
