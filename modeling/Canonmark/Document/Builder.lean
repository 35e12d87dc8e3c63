import Canonmark.Document.Shortcut
import Canonmark.Source.Reader

/-!
# Building documents

A document is built from the events of a source. What it does not model is kept as the text of
its span, and so are the definitions, each before the first block that starts behind it.

The source that was read may have characters in it that the text as supplied has not; spans are
mapped back before text is taken from them.
-/

namespace Canonmark

open Source (Event Located Tag LinkForm)

structure Origin where
  source : Text
  supplied : Text
  /-- Ascending positions in the source of characters that the supplied text has not. -/
  inserted : List Nat
  deriving Inhabited

namespace Origin

def same (source : Text) : Origin := ⟨source, source, []⟩

def suppliedOffset (origin : Origin) (position : Nat) : Nat :=
  position - (origin.inserted.takeWhile (· < position)).length

def slice (origin : Origin) (span : Span) : Text :=
  let start := origin.suppliedOffset span.start
  Span.slice (.upTo start (origin.suppliedOffset span.stop)) origin.supplied

end Origin

/-- A container whose marker starts the lines of what it holds. -/
inductive Enclosure where
  | quote
  | item (indent : Nat)
  deriving DecidableEq, Inhabited, Repr

namespace Enclosure

/-- A line without the marker of a quote, which it need not have. -/
def stripQuote (line : Text) : Text :=
  match line.dropWhile (· = ' ') with
  | '>' :: ' ' :: rest => rest
  | '>' :: rest => rest
  | _ => line

def strip : Enclosure → Text → Text
  | .quote, line => stripQuote line
  | .item indent, line => line.drop ((line.take indent).takeWhile (· = ' ')).length

def stripAll (enclosures : List Enclosure) (line : Text) : Text :=
  enclosures.foldl (fun line enclosure => enclosure.strip line) line

/-- A text without the markers on the lines behind its first. -/
def stripLines (enclosures : List Enclosure) (text : Text) : Text :=
  match Text.splitLines text with
  | [] => []
  | line :: lines => Text.joinLines (line :: lines.map (stripAll enclosures))

end Enclosure

/-- Marker of the item at the front of a text, and the indentation of its content. -/
def readItemMarker (number : Option Nat) (text : Text) : ListKind × Nat :=
  let text := text.dropWhile (· = ' ')
  let (kind, width) : ListKind × Nat :=
    match number with
    | some number =>
        let digits := (text.takeWhile Ascii.isDigit).length
        let delimiter := if (text.drop digits).head? = some ')' then ')' else '.'
        (.ordered number delimiter, digits + 1)
    | none =>
        match text with
        | c :: _ => (.bullet (if Source.isBullet c then c else '-'), 1)
        | [] => (.bullet '-', 1)
  let behind := text.drop width
  let spaces := (behind.takeWhile (· = ' ')).length
  let followed := match behind.drop spaces with
    | [] => false
    | c :: _ => c ≠ '\n'
  (kind, width + if followed && 1 ≤ spaces && spaces ≤ 4 then spaces else 1)

/-! ## The builder's state -/

structure Builder where
  events : List Located
  /-- Outermost first. -/
  enclosures : List Enclosure := []
  /-- Spans of definitions that no block was built of yet. -/
  definitions : List Span := []
  /-- Where the latest inline event ended; a backslash may stand between it and a text. -/
  inlineEnd : Nat := 0
  deriving Inhabited

namespace Builder

def slice (origin : Origin) (span : Span) (builder : Builder) : Text :=
  Enclosure.stripLines builder.enclosures (origin.slice span)

def quoteDepth (builder : Builder) : Nat := builder.enclosures.countP (· = .quote)

def enter (enclosure : Enclosure) (builder : Builder) : Builder :=
  { builder with enclosures := builder.enclosures ++ [enclosure] }

def leave (builder : Builder) : Builder :=
  { builder with enclosures := builder.enclosures.dropLast }

def flush (origin : Origin) (position : Nat) (builder : Builder) : List Block × Builder :=
  let due := builder.definitions.takeWhile (·.start < position)
  let block (span : Span) : Block :=
    .verbatim (.source (Text.dropEndWhile Unicode.isWhitespace (builder.slice origin span)))
  (due.map block, { builder with definitions := builder.definitions.drop due.length })

def skipFrom : (depth : Nat) → List Located → List Located
  | _, [] => []
  | depth, (.enter _, _) :: rest => skipFrom (depth + 1) rest
  | 0, (.leave, _) :: rest => rest
  | depth + 1, (.leave, _) :: rest => skipFrom depth rest
  | depth, _ :: rest => skipFrom depth rest

def skip (builder : Builder) : Builder :=
  { builder with events := skipFrom 0 builder.events }

def literalFrom : List Located → Text × List Located
  | [] => ([], [])
  | (.leave, _) :: rest => ([], rest)
  | (.text text, _) :: rest => joined text (literalFrom rest)
  | (.html text, _) :: rest => joined text (literalFrom rest)
  | (.inlineHtml text, _) :: rest => joined text (literalFrom rest)
  | (.code text, _) :: rest => joined text (literalFrom rest)
  | _ :: rest => literalFrom rest
where
  joined (text : Text) (result : Text × List Located) : Text × List Located :=
    (text ++ result.1, result.2)

def literal (builder : Builder) : Text × Builder :=
  let (text, rest) := literalFrom builder.events
  (text, { builder with events := rest })

/-! ## Inline content -/

def isInline : Event → Bool
  | .text _ => true
  | .code _ => true
  | .inlineHtml _ => true
  | .inlineMath => true
  | .footnoteReference => true
  | .softBreak => true
  | .hardBreak => true
  | .task _ => true
  | .enter .emphasis => true
  | .enter .strong => true
  | .enter .strike => true
  | .enter (.link _ _ _ _) => true
  | _ => false

def autolink (written : Text) : Leaf :=
  let inner := match written with
    | '<' :: rest => if rest.getLast? = some '>' then rest.dropLast else written
    | _ => written
  match Text.splitAtFirst? ':' inner with
  | some (scheme, rest) =>
      if Ascii.equalsIgnoringCase scheme "xref".toList then .autolinkXref scheme rest
      else if Ascii.equalsIgnoringCase scheme "mailto".toList then .mail (some scheme) rest
      else .autolink inner
  | none => .autolink inner

/--
Adds the text of a span to the content, latest first. It is taken as written, with a backslash
in front of it that belongs to no other event.
-/
def pushText (origin : Origin) (span : Span) (content : List Inline) (builder : Builder) :
    List Inline × Builder :=
  let escaped := builder.inlineEnd < span.start
    && (origin.source.drop (span.start - 1)).head? = some '\\'
  let start := if escaped then span.start - 1 else span.start
  let text := builder.slice origin (.upTo start span.stop)
  let builder := { builder with inlineEnd := span.stop }
  match content with
  | .leaf (.text before) :: rest => (.leaf (.text (before ++ text)) :: rest, builder)
  | _ => (.leaf (.text text) :: content, builder)

def delimiterAt (origin : Origin) (position : Nat) : Char :=
  if (origin.source.drop position).head? = some '_' then '_' else '*'

mutual

/-- Adds the content of one event, which has been taken, and of the node that it enters. -/
def inline (origin : Origin) :
    Nat → Event → Span → List Inline → Builder → List Inline × Builder
  | 0, _, _, content, builder => (content, builder)
  | fuel + 1, event, span, content, builder =>
      let done (node : Inline) (builder : Builder) : List Inline × Builder :=
        (node :: content, { builder with inlineEnd := span.stop })
      let kept (builder : Builder) : List Inline × Builder :=
        done (.leaf (.raw (builder.slice origin span))) builder
      match event with
      | .text _ => pushText origin span content builder
      | .code _ => done (.leaf (.code (builder.slice origin span))) builder
      | .inlineHtml html => done (.leaf (.html html)) builder
      | .html html => done (.leaf (.html html)) builder
      | .softBreak => done (.leaf .softBreak) builder
      | .hardBreak =>
          let backslash := (origin.source.drop span.start).head? = some '\\'
          done (.leaf (.hardBreak backslash)) builder
      | .task checked => done (.leaf (.task checked)) builder
      | .enter .emphasis =>
          let (children, builder) := inlines origin fuel [] builder
          done (.node (.emphasis (delimiterAt origin span.start)) children) builder
      | .enter .strong =>
          let (children, builder) := inlines origin fuel [] builder
          done (.node (.strong (delimiterAt origin span.start)) children) builder
      | .enter .strike =>
          let delimiter := (origin.source.drop span.start).takeWhile (· = '~')
          let (children, builder) := inlines origin fuel [] builder
          done (.node (.strike delimiter) children) builder
      | .enter (.link image form destination title) =>
          match form, image with
          | .direct, _ =>
              let title := if title.isEmpty then none else some title
              let (children, builder) := inlines origin fuel [] builder
              done (.node (.link image destination title) children) builder
          | .autolink, false => done (.leaf (autolink (span.slice origin.source))) builder.skip
          | .mail, false => done (.leaf (.mail none destination)) builder.skip
          | _, _ => kept builder.skip
      | .enter _ => kept builder.skip
      | .footnoteReference => kept builder
      | .inlineMath => kept builder
      | .displayMath => kept builder
      | .rule => kept builder
      | .leave => (content, builder)

def inlines (origin : Origin) :
    Nat → List Inline → Builder → List Inline × Builder
  | 0, content, builder => (XrefShortcut.splitAll content.reverse, builder)
  | fuel + 1, content, builder =>
      match builder.events with
      | [] => (XrefShortcut.splitAll content.reverse, builder)
      | (.leave, _) :: rest =>
          (XrefShortcut.splitAll content.reverse, { builder with events := rest })
      | (event, span) :: rest =>
          let (content, builder) :=
            inline origin fuel event span content { builder with events := rest }
          inlines origin fuel content builder

end

/-- Inline content outside of a paragraph, as far as it reaches. -/
def looseInlines (origin : Origin) :
    Nat → List Inline → Builder → List Inline × Builder
  | 0, content, builder => (XrefShortcut.splitAll content.reverse, builder)
  | fuel + 1, content, builder =>
      match builder.events with
      | [] => (XrefShortcut.splitAll content.reverse, builder)
      | (event, span) :: rest =>
          if isInline event then
            let (content, builder) :=
              inline origin fuel event span content { builder with events := rest }
            looseInlines origin fuel content builder
          else (XrefShortcut.splitAll content.reverse, builder)

/-! ## Blocks -/

def paragraph (content : List Inline) (builder : Builder) : Block :=
  .paragraph (if 0 < builder.quoteDepth then VideoDirective.mark content else content)

def fence (origin : Origin) (span : Span) : Text :=
  match (span.slice origin.source).dropWhile Unicode.isWhitespace with
  | c :: rest =>
      if c = '\x60' || c = '~' then c :: rest.takeWhile (· = c)
      else ['\x60', '\x60', '\x60']
  | [] => ['\x60', '\x60', '\x60']

mutual

/-- The block of one event, which has been taken, and of the node that it enters. -/
def block (origin : Origin) : Nat → Event → Span → Builder → Option Block × Builder
  | 0, _, _, builder => (none, builder)
  | fuel + 1, event, span, builder =>
      match event with
      | .leave => (none, builder)
      | .enter .paragraph =>
          let (content, builder) := inlines origin fuel [] builder
          (some (builder.paragraph content), builder)
      | .enter (.heading level) =>
          let (content, builder) := inlines origin fuel [] builder
          (some (.heading level content), builder)
      | .enter .quote =>
          let builder := builder.enter .quote
          let depth := builder.quoteDepth
          let (children, builder) := blocks origin fuel builder
          (some (.quote depth children), builder.leave)
      | .enter (.list number) =>
          let (kind, tight, items, builder) := items origin fuel number none builder
          (some (.list (kind.getD (.bullet '-')) tight items), builder)
      | .enter (.code info) =>
          let opening := info.map fun _ => fence origin span
          let (text, builder) := builder.literal
          (some (.verbatim (.code opening (Unicode.trim (info.getD [])) text)), builder)
      | .enter .htmlBlock =>
          let (text, builder) := builder.literal
          (some (.verbatim (.html text)), builder)
      | .enter .metadata =>
          let (text, builder) := builder.literal
          (some (.verbatim (.frontMatter text)), builder)
      | .rule => (some (.verbatim (.rule (Unicode.trim (span.slice origin.source)))), builder)
      | .html html => (some (.verbatim (.html html)), builder)
      | .displayMath => (some (.verbatim (.source (builder.slice origin span))), builder)
      | _ =>
          if isInline event then
            let (content, builder) := inline origin fuel event span [] builder
            let (content, builder) := looseInlines origin fuel content builder
            (some (builder.paragraph content), builder)
          else
            let builder := builder.skip
            (some (.verbatim (.source (builder.slice origin span))), builder)

def blocks (origin : Origin) : Nat → Builder → List Block × Builder
  | 0, builder => ([], builder)
  | fuel + 1, builder =>
      match builder.events with
      | [] => ([], builder)
      | (.leave, span) :: rest => { builder with events := rest }.flush origin span.stop
      | (event, span) :: rest =>
          let (due, builder) := { builder with events := rest }.flush origin span.start
          let (first, builder) := block origin fuel event span builder
          let (others, builder) := blocks origin fuel builder
          (due ++ first.toList ++ others, builder)

/-- The items of a list: its marker is that of the first, which is known as `kind` later on. -/
def items (origin : Origin) (fuel : Nat) (number : Option Nat) (kind : Option ListKind)
    (builder : Builder) : Option ListKind × Bool × List (List Block) × Builder :=
  match fuel with
  | 0 => (kind, true, [], builder)
  | fuel + 1 =>
      match builder.events with
      | [] => (kind, true, [], builder)
      | (.leave, _) :: rest => (kind, true, [], { builder with events := rest })
      | (.enter .item, span) :: rest =>
          let (marker, indent) := readItemMarker number (origin.source.drop span.start)
          let loose := match rest with
            | (.enter .paragraph, _) :: _ => true
            | _ => false
          let (item, builder) :=
            blocks origin fuel ({ builder with events := rest }.enter (.item indent))
          let (kind, tight, others, builder) :=
            items origin fuel number (some (kind.getD marker)) builder.leave
          (kind, !loose && tight, item :: others, builder)
      | _ :: rest => items origin fuel number kind { builder with events := rest }

end

end Builder

namespace Document

def ofEvents (origin : Origin) (events : List Located) (definitions : List Span) : Document :=
  let builder : Builder := { events := events, definitions := definitions }
  let (blocks, builder) := builder.blocks origin (2 * events.length + 1)
  let due := builder.definitions.map fun span =>
    Block.verbatim (.source (Text.dropEndWhile Unicode.isWhitespace (builder.slice origin span)))
  blocks ++ due

def readFrom (extensions : Extensions) (origin : Origin) : Document :=
  let source := Source.SourceRead.ofSource extensions origin.source
  ofEvents origin source.events source.definitions

def read (extensions : Extensions) (source : Text) : Document :=
  readFrom extensions (Origin.same source)

end Document

end Canonmark
