import Canonmark.Source.LeafReader

/-!
# Reading blocks

A line first continues open containers, then opens new ones, and what is left of it starts a
leaf block, which is read to its end.
-/

namespace Canonmark.Source

namespace BlockReader

/-- Opens the footnote that starts at the head, if one does. -/
def footnote? (head : LineHead) (reader : BlockReader) : Option BlockReader :=
  match reader.extensions.footnotes, head.rest with
  | true, '[' :: '^' :: rest =>
      (footnoteLabel? rest).map fun (label, n) =>
        let start := reader.position + head.taken
        let reader := reader.finishList start
        let reader :=
          match reader.top? with
          | some (.footnote _) => reader.close start
          | _ => reader
        let blanks := countWhile Ascii.isBlank (rest.drop n)
        let reader := reader.advance (head.taken + 2 + n + blanks)
        { reader.push (.footnote label) start with
          footnotes := Label.key label :: reader.footnotes }
  | _, _ => none

/-- Opens an item. There is no head to go on with if the line ends behind the marker. -/
def openItem (indent : Nat) (inner : LineHead) (marker : ItemMarker) (next : LineHead)
    (reader : BlockReader) : BlockReader × Option LineHead :=
  let start := reader.position + inner.taken - indent
  let behind := reader.position + next.taken
  let opened := (reader.continueList start marker.marker marker.number).push
    (.item marker.indent) start
  match blankLine? next.rest with
  | some n => ({ opened.advance (next.taken + n) with emptyItem := some (behind + n) }, none)
  | none =>
      match if reader.extensions.tasklists then next.taskMarker? else none with
      | none => (opened, some next)
      | some (checked, boxed) =>
          let stop := reader.position + boxed.taken
          let span := Span.upTo behind stop
          match blankLine? boxed.rest with
          | some n =>
              let marked := (opened.append (.leaf (.task checked) span)).advance (boxed.taken + n)
              ({ marked with emptyItem := some (stop + n) }, none)
          | none => ({ opened with task := some ⟨.task checked, span⟩ }, some boxed)

def openContainers : Nat → LineHead → BlockReader → BlockReader × Option LineHead
  | 0, head, reader => (reader, some head)
  | fuel + 1, head, reader =>
      let (indent, inner) := head.takeUpTo 4
      if 4 ≤ indent then (reader, some head)
      else
        match footnote? inner reader with
        | some reader => openContainers fuel (LineHead.start reader.rest) reader
        | none =>
            match inner.itemMarker? indent with
            | some (marker, next) =>
                match openItem indent inner marker next reader with
                | (reader, some head) =>
                    if reader.task.isSome then (reader, some head)
                    else openContainers fuel head reader
                | (reader, none) => (reader, none)
            | none =>
                match inner.quoteMarker? with
                | some next =>
                    openContainers fuel next
                      ((reader.finishList reader.position).push .quote
                        (reader.position + inner.taken))
                | none => (reader, some head)

def blankLine (n : Nat) (reader : BlockReader) : BlockReader :=
  let reader :=
    match reader.spine with
    | ⟨.quote, _, _⟩ :: _ => reader
    | ⟨.item indent, start, children⟩ :: spine =>
        let indent := if reader.emptyItem.isSome then 0 else indent
        { reader with spine := ⟨.item indent, start, children⟩ :: spine, lastBlank := true }
    | _ => { reader with lastBlank := true }
  reader.advance n

def finishLeaf (read : LeafRead) (reader : BlockReader) : BlockReader :=
  { reader.append (.leaf read.leaf read.span) with position := read.position, rest := read.rest }

def readText (head : LineHead) (reader : BlockReader) : BlockReader :=
  let leaf := LeafReader.paragraph reader.extensions reader.containers reader.task
    (reader.position + head.taken) head.rest
  finishLeaf leaf { reader with task := none }

/--
Reads the definitions at the head, and then the paragraph they turn into, unless a line follows
them that would end a paragraph.
-/
def readParagraph : Nat → LineHead → BlockReader → BlockReader
  | 0, _, reader => reader
  | fuel + 1, head, reader =>
      let containers := reader.containers
      let start := reader.position + head.taken
      match Definition.scan? reader.extensions containers start head.rest with
      | none => readText head reader
      | some (definition, length) =>
          let ending := (blankLine? (head.rest.drop length)).getD 0
          let reader :=
            { reader.advance (head.taken + length + ending) with
              definitions := Definition.register reader.definitions definition }
          let (inside, next) := LineHead.within containers reader.rest
          let (indented, content) := next.takeExactly 4
          if !indented && interrupts reader.extensions containers inside content.rest then reader
          else readParagraph fuel content.takeAll reader

/-- Reads the block that starts at the head, which is not at a blank line. Only text follows a
check box. -/
def readLeaf (head : LineHead) (reader : BlockReader) : BlockReader :=
  let reader := reader.finishList reader.position
  let containers := reader.containers
  let (indent, inner) := head.takeUpTo 4
  let position := reader.position + inner.taken
  let text := inner.rest
  if reader.task.isSome then readText head.takeAll reader
  else if indent = 4 then
    let (leaf, blank) := LeafReader.indentedCode containers inner.pending position text
    finishLeaf leaf { reader with lastBlank := blank }
  else if indent = 0 && reader.extensions.frontMatter && startsMetadata text then
    finishLeaf (LeafReader.metadata containers position text) reader
  else
    match if text.head? = some '<' then HtmlBlock.end? (text.drop 1) else none with
    | some ends =>
        finishLeaf (LeafReader.html containers ends (max head.pending indent) position text) reader
    | none =>
        match rule? text with
        | some n =>
            finishLeaf ⟨.rule, .ofLength position n, position + n, text.drop n⟩ reader
        | none =>
            match headingLevel? text with
            | some level =>
                finishLeaf (LeafReader.heading reader.extensions position level text) reader
            | none =>
                match fence? text with
                | some (size, char) =>
                    finishLeaf (LeafReader.fencedCode containers indent position char size text)
                      reader
                | none => readParagraph (text.length + 1) inner reader

/-- Reads the block at the front, or the line that opens a container for it. -/
def readBlock (reader : BlockReader) : BlockReader :=
  let (n, head) := LineHead.continuation reader.containers (LineHead.start reader.rest)
  let reader := reader.closeTo n reader.position
  match openContainers (reader.rest.length + 1) head reader with
  | (reader, none) => reader
  | (reader, some head) =>
      match blankLine? head.rest with
      | some n => reader.blankLine (head.taken + n)
      | none => readLeaf head reader

def readBlocks : Nat → BlockReader → BlockReader
  | 0, reader => reader
  | fuel + 1, reader =>
      if reader.rest.isEmpty then reader else readBlocks fuel reader.readBlock

def readSource (extensions : Extensions) (source : Text) : BlockReader :=
  let reader : BlockReader := { extensions := extensions, position := 0, rest := source }
  let reader := readBlocks (source.length + 1) reader
  reader.closeTo 0 reader.position

end BlockReader

end Canonmark.Source
