import Canonmark.Proofs.Document.TextLines
import Canonmark.Proofs.Printed.Headings
import Canonmark.Proofs.Printed.Neighbours

/-!
# Documents of plain blocks

Headings, paragraphs, fenced code and rules whose text has no marks on it, and that stand in no
other block. What is printed for them is read as these blocks again, with their text.
-/

namespace Canonmark.Printed

open Source

def headingText (content : List Inline) : Text :=
  (Printer.inlines content).map fun c => if c = '\n' then ' ' else c

theorem heading_eq (level : Nat) (content : List Inline) :
    Printer.heading level content =
      if (headingText content).isEmpty then List.replicate level '#'
      else List.replicate level '#' ++ ' ' :: headingText content := rfl

/-- The lines of text of a block, in which references may stand. -/
def textOf : Block → List Text
  | .paragraph content => Text.splitLines (Printer.inlines content)
  | .heading _ content => if (headingText content).isEmpty then [] else [headingText content]
  | _ => []

/-- Text of which a heading behind hashes takes neither the front nor the end away. -/
def isHeadingText (text : Text) : Bool :=
  text.head?.any (fun c => !Ascii.isBlank c)
    && LeafReader.headingContent (text ++ ['\n']) = text.length

/-- What is printed for the block is told apart from it by nothing but its references. -/
def isPlain (extensions : Extensions) (block : Block) : Bool :=
  settled extensions block && (textOf block).all (TokenLine.isText extensions)
    && match block with
      | .paragraph _ => true
      | .heading _ _ => (textOf block).all isHeadingText
      | .verbatim (.rule marker) => Unicode.trim marker = marker
      | .verbatim _ => true
      | _ => false

/-- The block that is read where a plain block was printed. -/
def reread (block : Block) : Block :=
  match block with
  | .paragraph _ => .paragraph (XrefShortcut.splitAll (Builder.textLines (textOf block)))
  | .heading level _ => .heading level (XrefShortcut.splitAll (Builder.textLines (textOf block)))
  | block => block

def StartsLine (source : Text) (position : Nat) : Prop :=
  0 < position → (source.drop (position - 1)).head? = some '\n'

/-- A leaf that was read between these positions for a block. -/
inductive ReadsAs (source : Text) (start stop : Nat) : BlockTree → Block → Prop
  | paragraph {lines : List Text} {tokens : List Token} (span : Span) :
      StartsLine source start → LinesTexts source start lines tokens →
        start + (Text.joinLines lines).length ≤ stop →
          ReadsAs source start stop (.leaf (.paragraph false tokens) span)
            (.paragraph (XrefShortcut.splitAll (Builder.textLines lines)))
  | heading {level position : Nat} {text : Text} {tokens : List Token} (span : Span) :
      (source.drop (position - 1)).head? = some ' ' → LinesTexts source position [text] tokens →
        start ≤ position → position + text.length ≤ stop →
          ReadsAs source start stop (.leaf (.heading level tokens) span)
            (.heading level (XrefShortcut.splitAll (Builder.textLines [text])))
  | noHeading {level : Nat} (span : Span) : start ≤ stop →
      ReadsAs source start stop (.leaf (.heading level []) span) (.heading level [])
  | rule {span : Span} : start ≤ stop →
      ReadsAs source start stop (.leaf .rule span)
        (.verbatim (.rule (Unicode.trim (span.slice source))))
  | code {info : Text} {pieces : List LocatedPiece} {span : Span} : start ≤ stop →
      ReadsAs source start stop (.leaf (.code (some info) pieces) span)
        (.verbatim (.code (some (Builder.fence (.same source) span)) (Unicode.trim info)
          (literalText pieces)))

variable {source : Text} {start stop : Nat} {tree : BlockTree} {block : Block}

/-- A builder outside of containers, with no definitions left. -/
def building (events : List Located) (inlineEnd : Nat) : Builder :=
  { events := events, inlineEnd := inlineEnd }

theorem blocks_building {event : Event} (hopen : event ≠ .leave) {span : Span}
    {events rest : List Located} {inlineEnd last fuel : Nat}
    (h : Builder.block (.same source) fuel event span (building events inlineEnd)
      = (some block, building rest last)) :
    Builder.blocks (.same source) (fuel + 1) (building ((event, span) :: events) inlineEnd) =
      (block :: (Builder.blocks (.same source) fuel (building rest last)).1,
        (Builder.blocks (.same source) fuel (building rest last)).2) := by
  have hflushed : Builder.flush (.same source) span.start (building events inlineEnd)
      = ([], building events inlineEnd) := rfl
  rw [Builder.blocks_event hopen _ rfl]
  change (let flushed := Builder.flush (.same source) span.start (building events inlineEnd)
    let made := Builder.block (.same source) fuel event span flushed.2
    let others := Builder.blocks (.same source) fuel made.2
    (flushed.1 ++ made.1.toList ++ others.1, others.2)) = _
  simp only [hflushed, h]
  rfl

theorem inlineEvents_texts (shared : SourceRead.Shared) (budget : Nat) (span : Span)
    {tokens : List Token} (hplain : ∀ token ∈ tokens, token.isPlain = true) :
    ∃ context, SourceRead.inlineEvents shared [] budget span tokens =
      (tokens.map (plainEvent context), budget) := by
  simp only [SourceRead.inlineEvents, ofTokens_plain _ budget hplain, eventsOf_plain]
  exact ⟨_, rfl⟩

theorem inlines_building (context : InlineContext) {position : Nat} {lines : List Text}
    {tokens : List Token} (htexts : LinesTexts source position lines tokens) {inlineEnd fuel : Nat}
    (hless : inlineEnd ≤ position)
    (hplain : 0 < position → (source.drop (position - 1)).head? ≠ some '\\')
    (henough : tokens.length < fuel) (span : Span) (rest : List Located) :
    Builder.inlines (.same source) fuel []
        (building (tokens.map (plainEvent context) ++ (.leave, span) :: rest) inlineEnd) =
      (XrefShortcut.splitAll (Builder.textLines lines),
        building rest (position + (Text.joinLines lines).length)) :=
  Builder.inlines_lines context htexts
    ⟨hless, fun hbefore => hplain (Nat.zero_lt_of_lt hbefore)⟩ (by simp [Builder.Fresh]) henough rfl

structure Makes (source : Text) (start stop : Nat) (block : Block) (events : List Located) :
    Prop where
  filled : 0 < events.length
  blocks : ∀ (rest : List Located) (inlineEnd fuel : Nat), inlineEnd ≤ start →
    2 * (events ++ rest).length < fuel + 1 →
      ∃ last ≤ stop,
        Builder.blocks (.same source) (fuel + 1) (building (events ++ rest) inlineEnd) =
          (block :: (Builder.blocks (.same source) fuel (building rest last)).1,
            (Builder.blocks (.same source) fuel (building rest last)).2)

theorem enclose_append (tag : Tag) (span : Span) (events rest : List Located) :
    SourceRead.enclose tag span events ++ rest =
      (.enter tag, span) :: (events ++ (.leave, span) :: rest) := by
  simp [SourceRead.enclose]

theorem makes_texts {tag : Tag} {span : Span} {make : List Inline → Block}
    (hencloses : ∀ (fuel : Nat) (content : List Inline) (before behind : Builder),
      behind.enclosures = [] →
        Builder.inlines (.same source) fuel [] before = (content, behind) →
          Builder.block (.same source) (fuel + 1) (.enter tag) span before
            = (some (make content), behind))
    (context : InlineContext) {position : Nat} {lines : List Text} {tokens : List Token}
    (htexts : LinesTexts source position lines tokens) (hfirst : start ≤ position)
    (hplain : 0 < position → (source.drop (position - 1)).head? ≠ some '\\')
    (hends : position + (Text.joinLines lines).length ≤ stop) :
    Makes source start stop (make (XrefShortcut.splitAll (Builder.textLines lines)))
      (SourceRead.enclose tag span (tokens.map (plainEvent context))) := by
  refine ⟨Nat.succ_pos _, fun rest inlineEnd fuel hless henough => ⟨_, hends, ?_⟩⟩
  rw [enclose_append] at henough ⊢
  simp only [List.length_append, List.length_cons, List.length_map] at henough
  obtain ⟨fuel, rfl⟩ : ∃ n, fuel = n + 1 := ⟨fuel - 1, by omega⟩
  exact blocks_building (by simp) (hencloses fuel _ _ _ rfl
    (inlines_building context htexts (Nat.le_trans hless hfirst) hplain (by omega) span rest))

theorem ReadsAs.makes (h : ReadsAs source start stop tree block) (shared : SourceRead.Shared)
    (budget : Nat) :
    ∃ events, SourceRead.treeEvents shared [] budget tree = (events, budget) ∧
      Makes source start stop block events := by
  cases h with
  | @paragraph lines tokens span hstarts htexts hends =>
      obtain ⟨context, hevents⟩ := inlineEvents_texts shared budget span htexts.isPlain
      have hleaf : SourceRead.treeEvents shared [] budget (.leaf (.paragraph false tokens) span) =
          (SourceRead.enclose .paragraph span (tokens.map (plainEvent context)), budget) := by
        simp only [SourceRead.treeEvents, SourceRead.leafEvents, hevents]
        rfl
      refine ⟨_, hleaf, makes_texts (fun fuel content before behind houtside hinlines => ?_) context
        htexts (Nat.le_refl _) (fun hpos => by rw [hstarts hpos]; decide) hends⟩
      simp only [Builder.block, hinlines]
      simp [Builder.paragraph, Builder.quoteDepth, houtside]
  | @heading level position text tokens span hbefore htexts hfirst hends =>
      obtain ⟨context, hevents⟩ := inlineEvents_texts shared budget span htexts.isPlain
      have hleaf : SourceRead.treeEvents shared [] budget (.leaf (.heading level tokens) span) =
          (SourceRead.enclose (.heading level) span (tokens.map (plainEvent context)), budget) := by
        simp only [SourceRead.treeEvents, SourceRead.leafEvents, hevents]
      refine ⟨_, hleaf, makes_texts (fun fuel content before behind houtside hinlines => ?_) context
        htexts hfirst (fun _ => by rw [hbefore]; decide) hends⟩
      simp only [Builder.block, hinlines]
  | @noHeading level span hends =>
      refine ⟨SourceRead.enclose (.heading level) span [], rfl,
        ⟨Nat.succ_pos _, fun rest inlineEnd fuel hless henough =>
          ⟨inlineEnd, Nat.le_trans hless hends, ?_⟩⟩⟩
      rw [enclose_append] at henough ⊢
      simp only [List.length_append, List.length_cons, List.length_nil] at henough
      obtain ⟨fuel, rfl⟩ : ∃ n, fuel = n + 2 := ⟨fuel - 2, by omega⟩
      exact blocks_building (by simp) rfl
  | @rule span hends =>
      refine ⟨[(.rule, span)], rfl,
        ⟨Nat.succ_pos _, fun rest inlineEnd fuel hless henough =>
          ⟨inlineEnd, Nat.le_trans hless hends, ?_⟩⟩⟩
      simp only [List.length_append, List.length_cons, List.length_nil] at henough
      obtain ⟨fuel, rfl⟩ : ∃ n, fuel = n + 1 := ⟨fuel - 1, by omega⟩
      exact blocks_building (by simp) rfl
  | @code info pieces span hends =>
      refine ⟨SourceRead.enclose (.code (some info)) span (SourceRead.pieceEvents pieces), rfl,
        ⟨Nat.succ_pos _, fun rest inlineEnd fuel hless henough =>
          ⟨inlineEnd, Nat.le_trans hless hends, ?_⟩⟩⟩
      rw [enclose_append] at henough ⊢
      simp only [List.length_append, List.length_cons] at henough
      obtain ⟨fuel, rfl⟩ : ∃ n, fuel = n + 1 := ⟨fuel - 1, by omega⟩
      refine blocks_building (by simp) ?_
      have hliteral := Builder.literalFrom_pieceEvents pieces span rest
      simp only [Builder.block, Builder.literal, building, hliteral]
      rfl

inductive AllReadAs (source : Text) : (start : Nat) → List BlockTree → List Block → Prop
  | nil (start : Nat) : AllReadAs source start [] []
  | cons {start stop next : Nat} {tree : BlockTree} {block : Block} {trees : List BlockTree}
      {blocks : List Block} : ReadsAs source start stop tree block → stop ≤ next →
        AllReadAs source next trees blocks →
          AllReadAs source start (tree :: trees) (block :: blocks)

theorem AllReadAs.makes {trees : List BlockTree} {blocks : List Block}
    (h : AllReadAs source start trees blocks) (shared : SourceRead.Shared) (budget : Nat) :
    ∃ events, SourceRead.treesEvents shared [] budget trees = (events, budget) ∧
      ∀ inlineEnd fuel : Nat, inlineEnd ≤ start → 2 * events.length < fuel →
        ∃ last, Builder.blocks (.same source) fuel (building events inlineEnd) =
          (blocks, building [] last) := by
  induction h with
  | nil start =>
      refine ⟨[], rfl, fun inlineEnd fuel _ henough => ⟨inlineEnd, ?_⟩⟩
      obtain ⟨fuel, rfl⟩ := Nat.exists_eq_succ_of_ne_zero (Nat.ne_zero_of_lt henough)
      rfl
  | cons hreads hle _ ih =>
      obtain ⟨events, htree, hfirst⟩ := hreads.makes shared budget
      obtain ⟨more, htrees, hothers⟩ := ih
      refine ⟨events ++ more, by simp only [SourceRead.treesEvents, htree, htrees], ?_⟩
      intro inlineEnd fuel hless henough
      obtain ⟨fuel, rfl⟩ := Nat.exists_eq_succ_of_ne_zero (Nat.ne_zero_of_lt henough)
      obtain ⟨last, hbehind, hmade⟩ := hfirst.blocks more inlineEnd fuel hless henough
      have hfilled := hfirst.filled
      rw [List.length_append] at henough
      obtain ⟨last, hrest⟩ := hothers last fuel (Nat.le_trans hbehind hle) (by omega)
      exact ⟨last, by rw [hmade, hrest]⟩

/-- A source of leaves that were read for blocks is a document of these blocks. -/
theorem AllReadAs.read {extensions : Extensions} {trees : List BlockTree} {blocks : List Block}
    (h : AllReadAs source 0 trees blocks)
    (hreader : (BlockReader.readSource extensions source).blocks.reverse = trees)
    (hdefinitions : (BlockReader.readSource extensions source).definitions = []) :
    Document.read extensions source = blocks := by
  obtain ⟨events, hread, hmade⟩ := h.makes ⟨extensions, source, [],
    (BlockReader.readSource extensions source).footnotes⟩ (max (Text.utf8Size source)
      SourceRead.minBudget)
  obtain ⟨last, hall⟩ := hmade 0 (2 * events.length + 1) (Nat.le_refl 0) (Nat.lt_succ_self _)
  have hofSource : SourceRead.ofSource extensions source = ⟨events, []⟩ := by
    simp only [SourceRead.ofSource, hreader, hdefinitions, hread, List.map_nil]
  change Document.ofEvents (.same source) (SourceRead.ofSource extensions source).events
    (SourceRead.ofSource extensions source).definitions = blocks
  have hall : Builder.blocks (.same source) (2 * events.length + 1) { events := events } =
      (blocks, building [] last) := hall
  simp only [hofSource, Document.ofEvents, hall]
  exact List.append_nil _

end Canonmark.Printed
