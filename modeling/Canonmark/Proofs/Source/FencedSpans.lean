import Canonmark.Proofs.Destination.Scan
import Canonmark.Proofs.Source.EventShape
import Canonmark.Proofs.Source.FencedCode

/-!
# Fenced code, line by line

In a source of plain lines, the lines of fenced code are those that are taken for fenced one by
one, without regard to other blocks.
-/

namespace Canonmark.Source

open FencedLines (Covers opening?)
open Printed (headAt rule?_head)

def fencedPick : Pick Span where
  pick _ block span := block.fenced span
  paragraph _ _ _ _ := rfl
  task _ _ _ := rfl

namespace BlockReader

variable {reader after : BlockReader} {lines : List Text}

/-- A reader outside of containers, with no check box. -/
structure Bare (reader : BlockReader) : Prop where
  spine : reader.spine = []
  task : reader.task = none

/-- From lines on, a reader has found the spans of their fenced code up to some later lines. -/
structure Passes (reader : BlockReader) (lines : List Text) (after : BlockReader) : Prop where
  bare : after.Bare
  goesOn : ∃ later spans, after.rest = later.flatten ∧ later <:+ lines ∧
    later.length < lines.length ∧ after.picked fencedPick = reader.picked fencedPick ++ spans ∧
      ∀ more, Covers after.position later more → Covers reader.position lines (spans ++ more)

theorem passes_finishLeaf (hbare : reader.Bare) {read : LeafRead} {line : Text}
    {rest later : List Text}
    (hhere : read.rest = later.flatten) (hsuffix : later <:+ rest)
    (hcovers : ∀ more, Covers read.position later more →
      Covers reader.position (line :: rest) (read.leaf.fenced read.span ++ more)) :
    reader.Passes (line :: rest) (finishLeaf read reader) := by
  have hblocks : reader.append (.leaf read.leaf read.span) =
      { reader with blocks := .leaf read.leaf read.span :: reader.blocks } := by
    rw [append, hbare.spine]
  have hpicked : (finishLeaf read reader).picked fencedPick =
      reader.picked fencedPick ++ read.leaf.fenced read.span :=
    picked_append (.leaf read.leaf read.span) reader
  refine ⟨⟨?_, ?_⟩, later, _, hhere, hsuffix.trans (List.suffix_cons _ _),
    Nat.lt_succ_of_le hsuffix.length_le, hpicked, hcovers⟩
  · rw [finishLeaf, hblocks]
    exact hbare.spine
  · rw [finishLeaf, hblocks]
    exact hbare.task

namespace Bare

theorem finishList (hbare : reader.Bare) (stop : Nat) :
    reader.finishList stop = { reader with emptyItem := none, lastBlank := false } := by
  have htop : reader.top? = none := by rw [top?, hbare.spine]; rfl
  have hempty : reader.finishEmptyItem = { reader with emptyItem := none } := by
    simp [finishEmptyItem, htop]
  rw [finishList_eq, closeList, hempty]
  cases hlast : reader.lastBlank with
  | false => simp [top?, hbare.spine]
  | true => simp [top?, hbare.spine, loosenParent]

theorem containers (hbare : reader.Bare) : reader.containers = [] := by
  rw [BlockReader.containers, hbare.spine]
  rfl

end Bare

theorem passes_blank (hbare : reader.Bare) {line : Text} {rest : List Text} {indent : Nat}
    {ending : Text} (hshape : line = List.replicate indent ' ' ++ ([] ++ ending))
    (hplain : PlainLine indent [] ending rest.flatten)
    (hhere : reader.rest = (line :: rest).flatten) :
    reader.Passes (line :: rest) (reader.blankLine (indent + ending.length)) := by
  have hlength : line.length = indent + ending.length := by simp [hshape]
  have hstays := stays_blankLine (indent + ending.length) reader
  have hunopened : opening? line = none := by
    rw [hshape, hplain.opening?_eq]
    rfl
  refine ⟨⟨?_, hstays.task.trans hbare.task⟩, rest, [], ?_, List.suffix_cons _ _,
    Nat.lt_succ_self _, ?_, ?_⟩
  · simp [blankLine, hbare.spine, BlockReader.advance]
  · rw [hstays.rest]
    change reader.rest.drop (indent + ending.length) = _
    rw [hhere, ← hlength, List.flatten_cons, List.drop_left]
  · rw [picked_blankLine, List.append_nil]
  · intro more hcovers
    rw [hstays.position] at hcovers
    change Covers (reader.position + (indent + ending.length)) rest more at hcovers
    rw [← hlength] at hcovers
    exact .plain hunopened hcovers

theorem headingLevel?_head {c : Char} {rest : Text} {level : Nat}
    (h : headingLevel? (c :: rest) = some level) : c = '#' := by
  by_contra hother
  have hnone : countWhile (fun d => decide (d = '#')) (c :: rest) = 0 := by
    simp [countWhile, hother]
  simp [headingLevel?, hnone] at h

theorem fence?_of_headingLevel? {c : Char} {rest text : Text} {level : Nat}
    (h : headingLevel? (c :: rest) = some level) : fence? (c :: text) = none := by
  obtain rfl := headingLevel?_head h
  exact fence?_of_head (by decide) (by decide)

theorem fence?_of_rule? {c : Char} {rest text : Text} {n : Nat}
    (h : rule? (c :: rest) = some n) : fence? (c :: text) = none := by
  obtain ⟨_, _, hfront, hmark⟩ := rule?_head h
  obtain ⟨rfl, -⟩ := List.cons.inj hfront
  exact fence?_of_head (by rcases hmark with rfl | rfl | rfl <;> decide)
    (by rcases hmark with rfl | rfl | rfl <;> decide)

theorem startsMetadata_of_head {c : Char} {rest : Text} (hhyphen : c ≠ '-') :
    startsMetadata (c :: rest) = false := by
  have hcount : countWhile (fun d => decide (d = '-')) (c :: rest) = 0 := by
    simp [countWhile, hhyphen]
  simp [startsMetadata, hcount]

/-- A plain line is a rule, a heading, a fence or text. -/
theorem readLeaf_cases {head next : LineHead} {indent : Nat} {c : Char} {text : Text}
    (hfinished : reader.finishList reader.position = after) (htask : after.task = none)
    (hcolumns : head.takeUpTo 4 = (indent, next)) (hfew : indent ≤ 3)
    (hfirst : next.rest = c :: text)
    (hvisible : PlainStart c) :
    (∃ n, rule? next.rest = some n ∧ readLeaf head reader =
      finishLeaf ⟨.rule, .ofLength (after.position + next.taken) n,
        after.position + next.taken + n, next.rest.drop n⟩ after) ∨
    (∃ level, headingLevel? next.rest = some level ∧ readLeaf head reader =
      finishLeaf (LeafReader.heading after.extensions (after.position + next.taken) level
        next.rest) after) ∨
    (∃ size char, fence? next.rest = some (size, char) ∧ readLeaf head reader =
      finishLeaf (LeafReader.fencedCode after.containers indent (after.position + next.taken) char
        size next.rest) after) ∨
    (fence? next.rest = none ∧
      readLeaf head reader = readParagraph (next.rest.length + 1) next after) := by
  have hshallow : ¬indent = 4 := by omega
  have hmetadata : startsMetadata next.rest = false :=
    hfirst ▸ startsMetadata_of_head hvisible.separates.2.2
  have hhtml : (if next.rest.head? = some '<' then HtmlBlock.end? (next.rest.drop 1)
      else none) = none := by
    rw [hfirst, List.head?_cons, if_neg]
    simpa using hvisible.opens.1
  unfold readLeaf
  simp only [hfinished, hcolumns, htask, Option.isSome_none, Bool.false_eq_true, if_false, hshallow,
    hmetadata, Bool.and_false, hhtml]
  split
  · next n hrule => exact .inl ⟨n, hrule, rfl⟩
  split
  · next level hheading => exact .inr (.inl ⟨level, hheading, rfl⟩)
  split
  · next size char hfence => exact .inr (.inr (.inl ⟨size, char, hfence, rfl⟩))
  · next hnone => exact .inr (.inr (.inr ⟨hnone, rfl⟩))

theorem readParagraph_text (hbare : reader.Bare) {head : LineHead} {c : Char} {text : Text}
    (hfirst : head.rest = c :: text) (hbracket : c ≠ '[')
    (htable : Table.head? [] true head.rest = none) (fuel : Nat) :
    readParagraph (fuel + 1) head reader =
      finishLeaf (LeafReader.paragraphFrom reader.extensions [] (reader.position + head.taken)
        (head.rest.length + 1) [] (reader.position + head.taken) head.rest) reader := by
  have hundefined : Definition.scan? reader.extensions [] (reader.position + head.taken) head.rest =
      none := by
    rw [hfirst, Definition.scan?]
    simp [hbracket]
  have hdone : ({ reader with task := none } : BlockReader) = reader := by
    rw [← hbare.task]
  simp only [readParagraph, hundefined, readText, LeafReader.paragraph, hbare.containers,
    hbare.task, htable, ite_self, hdone]
  rfl

/-- A leaf that is no fenced code starts on a line that opens none. -/
theorem passes_unfenced (hbare : reader.Bare) {line body ending : Text} {rest later : List Text}
    {indent : Nat} {read : LeafRead}
    (hshape : line = List.replicate indent ' ' ++ (body ++ ending))
    (hplain : PlainLine indent body ending rest.flatten) (hunfenced : fence? body = none)
    (hhere : read.rest = later.flatten) (hcodeless : ∀ span, read.leaf.fenced span = [])
    (hskips : Skips (reader.position + indent + (body.length + ending.length)) rest read.position
      later) :
    reader.Passes (line :: rest) (finishLeaf read reader) := by
  have hlength : line.length = indent + (body.length + ending.length) := by simp [hshape]
  have hunopened : opening? line = none := by
    rw [hshape, hplain.opening?_eq, hunfenced]
    rfl
  refine passes_finishLeaf hbare hhere hskips.suffix fun more hcovers => ?_
  rw [hcodeless, List.nil_append]
  refine .plain hunopened ((hskips.of_eq ?_).covers hcovers)
  omega

theorem passes_fenced (hbare : reader.Bare) {line body ending : Text} {rest : List Text}
    {indent size : Nat} {char : Char}
    (hshape : line = List.replicate indent ' ' ++ (body ++ ending))
    (hplain : PlainLine indent body ending rest.flatten) (hothers : PlainLines rest)
    (hfew : indent ≤ 3) (hsome : body ≠ []) (hfound : fence? body = some (size, char)) :
    reader.Passes (line :: rest) (finishLeaf (LeafReader.fencedCode reader.containers indent
      (reader.position + indent) char size (body ++ (ending ++ rest.flatten))) reader) := by
  have hopening : opening? line = some (char, size) := by
    rw [hshape, hplain.opening?_eq, hfound]
    rfl
  obtain ⟨inside, later, info, pieces, span, rfl, hcode, hstarts, hclosed⟩ :=
    LeafReader.exists_fencedCode hothers hplain.toLineRest hfound (show indent < 4 by omega)
      (reader.position + indent)
  have hplace : reader.position + indent + (body.length + ending.length) =
      reader.position + line.length := by
    simp only [hshape, List.length_append, List.length_replicate]
    omega
  rw [hplace] at hcode hclosed
  rw [hbare.containers, hcode]
  have hwide := List.length_pos_iff.mpr hsome
  refine passes_finishLeaf hbare rfl (List.suffix_append _ _) fun more hcovers => ?_
  refine .fenced hopening ?_ hclosed hcovers
  rw [hstarts]
  omega

theorem passes_readLeaf (hbare : reader.Bare) {line : Text} {rest : List Text} {indent : Nat}
    {body ending : Text} (hshape : line = List.replicate indent ' ' ++ (body ++ ending))
    (hplain : PlainLine indent body ending rest.flatten) (hothers : PlainLines rest)
    (hsome : body ≠ []) :
    reader.Passes (line :: rest) (readLeaf (headAt 0
      (List.replicate indent ' ' ++ (body ++ (ending ++ rest.flatten)))) reader) := by
  obtain ⟨hfew, c, inner, hsame, hstarts⟩ := hplain.start.resolve_left hsome
  have hcolumns := hplain.takeUpTo 0 4
  have hnone : indent - 4 = 0 := by omega
  have hwhole : min 4 indent = indent := by omega
  rw [hnone, hwhole, List.replicate_zero, List.nil_append, Nat.zero_add] at hcolumns
  have hfirst : (headAt indent (body ++ (ending ++ rest.flatten))).rest =
      c :: (inner ++ (ending ++ rest.flatten)) := by rw [hsame]; rfl
  have hfinished := hbare.finishList reader.position
  have hstill : ({ reader with emptyItem := none, lastBlank := false } : BlockReader).Bare :=
    ⟨hbare.spine, hbare.task⟩
  suffices hpasses : ({ reader with emptyItem := none, lastBlank := false } : BlockReader).Passes
      (line :: rest) (readLeaf (headAt 0
        (List.replicate indent ' ' ++ (body ++ (ending ++ rest.flatten)))) reader) from
    ⟨hpasses.bare, hpasses.goesOn⟩
  rcases readLeaf_cases hfinished hstill.task hcolumns hfew hfirst (plainStart hstarts) with
    ⟨n, hrule, hread⟩ | ⟨level, hheading, hread⟩ | ⟨size, char, hfence, hread⟩ | ⟨hunfenced, hread⟩
  · have hunfenced : fence? body = none := hsame ▸ fence?_of_rule? (hfirst ▸ hrule)
    obtain rfl := hplain.toLineRest.rule?_eq_some hrule
    rw [hread]
    exact passes_unfenced hstill hshape hplain hunfenced (LineRest.drop_length _ _ _)
      (fun _ => rfl) (.refl _ _)
  · have hunfenced : fence? body = none := hsame ▸ fence?_of_headingLevel? (hfirst ▸ hheading)
    obtain ⟨hplace, hbehind, hcodeless⟩ := LeafReader.heading_line hplain.toLineRest
      hothers.carriage hheading (reader.position + indent)
    rw [hread]
    exact passes_unfenced hstill hshape hplain hunfenced hbehind hcodeless (hplace ▸ .refl _ _)
  · rw [hread]
    exact passes_fenced hstill hshape hplain hothers hfew hsome
      (hplain.toLineRest.fence?_eq ▸ hfence)
  · have hunfenced : fence? body = none := hplain.toLineRest.fence?_eq ▸ hunfenced
    have henough : rest.length < (body ++ (ending ++ rest.flatten)).length + 1 := by
      have := hothers.length_le
      simp only [List.length_append]
      omega
    obtain ⟨later, hbehind, hskips, hcodeless⟩ := LeafReader.exists_paragraphFrom hothers
      hplain.toLineRest (reader.position + indent) henough [] (reader.position + indent)
    rw [hread, readParagraph_text hstill hfirst (plainStart hstarts).opens.2.2
      (hplain.toLineRest.tableHead? hothers.separator? true)]
    exact passes_unfenced hstill hshape hplain hunfenced hbehind hcodeless hskips

theorem passes_readBlock (hbare : reader.Bare) {line : Text} {rest : List Text}
    (hplain' : PlainLines (line :: rest)) (hhere : reader.rest = (line :: rest).flatten) :
    reader.Passes (line :: rest) reader.readBlock := by
  obtain ⟨indent, body, ending, rfl, hplain⟩ := hplain'.exists_plainLine
  have htext : reader.rest =
      List.replicate indent ' ' ++ (body ++ (ending ++ rest.flatten)) := by simpa using hhere
  have hclosed (stop : Nat) : reader.closeTo 0 stop = reader := by
    rw [closeTo, hbare.spine]
    rfl
  have hopened (fuel : Nat) := hplain.openContainers fuel reader
  rw [← htext] at hopened
  have hblank := hplain.blankLine?_eq
  rw [← htext] at hblank
  unfold readBlock
  have hfront : (headAt 0 reader.rest).rest = reader.rest ∧ (headAt 0 reader.rest).taken = 0 :=
    ⟨rfl, rfl⟩
  simp only [hbare.containers, LineHead.continuation, hclosed, Printed.start_eq, hopened, hfront,
    hblank]
  by_cases hnone : body = []
  · subst hnone
    simpa only [if_true, Nat.zero_add] using passes_blank hbare rfl hplain hhere
  · simp only [if_neg hnone]
    rw [htext]
    exact passes_readLeaf hbare rfl hplain hplain'.tail hnone

theorem covers_readBlocks (hbare : reader.Bare) {lines : List Text} (hplain : PlainLines lines)
    (hhere : reader.rest = lines.flatten) {fuel : Nat} (henough : lines.length < fuel) :
    ∃ spans, (readBlocks fuel reader).picked fencedPick = reader.picked fencedPick ++ spans ∧
      Covers reader.position lines spans := by
  induction fuel generalizing reader lines with
  | zero => omega
  | succ fuel ih =>
      rw [readBlocks]
      cases lines with
      | nil =>
          have hempty : reader.rest.isEmpty = true := hhere ▸ rfl
          rw [if_pos hempty]
          exact ⟨[], (List.append_nil _).symm, .nil _⟩
      | cons line rest =>
          have hsome : ¬reader.rest.isEmpty = true := by
            rw [hhere]
            simp [hplain.areLines.1]
          rw [if_neg hsome]
          obtain ⟨hstill, later, spans, hbehind, hsuffix, hshorter, hpicked, hcovers⟩ :=
            passes_readBlock hbare hplain hhere
          obtain ⟨others, hall, hrest⟩ := ih hstill (hplain.suffix hsuffix) hbehind (by omega)
          refine ⟨spans ++ others, ?_, hcovers others hrest⟩
          rw [hall, hpicked, List.append_assoc]

/-- Plain lines have their fenced code in the order of the source. -/
theorem covers_readSource (extensions : Extensions) {source : Text}
    (hplain : PlainLines (Text.lineSegments source)) :
    Covers 0 (Text.lineSegments source)
      (BlockTree.allPicked fencedPick false (readSource extensions source).blocks.reverse) := by
  have henough : (Text.lineSegments source).length < source.length + 1 := by
    have hle := hplain.length_le
    rw [Text.flatten_lineSegments] at hle
    exact Nat.lt_succ_of_le hle
  have hbare : Bare { extensions := extensions, position := 0, rest := source } := ⟨rfl, rfl⟩
  obtain ⟨spans, hpicked, hcovers⟩ := covers_readBlocks hbare hplain
    (Text.flatten_lineSegments source).symm henough
  have hclosed : (readSource extensions source).spine = [] := spine_closeTo _ _
  have hall : (readSource extensions source).picked fencedPick = spans :=
    (picked_closeTo _ _ _).trans hpicked
  rw [BlockReader.picked, hclosed, spinePicked] at hall
  rwa [hall]

end BlockReader

/-! ## Events -/

def Event.isFenced : Event → Bool
  | .enter (.code (some _)) => true
  | _ => false

def fencedSpans (events : List Located) : List Span :=
  (events.filter (·.1.isFenced)).map Prod.snd

theorem fencedSpans_append (events others : List Located) :
    fencedSpans (events ++ others) = fencedSpans events ++ fencedSpans others := by
  simp [fencedSpans]

theorem InlineShape.fencedSpans_eq_nil {events : List Located} (h : InlineShape events) :
    fencedSpans events = [] := by
  have hunfenced : ∀ located ∈ events, located.1.isFenced = false := by
    induction h with
    | nil => simp
    | atom atom span _ ih => exact List.forall_mem_cons.mpr ⟨by cases atom <;> rfl, ih⟩
    | hardBreak span _ ih => exact List.forall_mem_cons.mpr ⟨rfl, ih⟩
    | group tag span stop _ _ hinside hbehind =>
        rw [List.cons_append, List.forall_mem_cons, List.forall_mem_append, List.forall_mem_cons]
        exact ⟨by cases tag <;> rfl, hinside, rfl, hbehind⟩
  rw [fencedSpans, List.filter_eq_nil_iff.mpr (by simpa using hunfenced)]
  rfl

namespace SourceRead

theorem fencedSpans_pieceEvents (pieces : List LocatedPiece) :
    fencedSpans (pieceEvents pieces) = [] := by
  rw [fencedSpans, List.map_eq_nil_iff, List.filter_eq_nil_iff, pieceEvents, List.forall_mem_map]
  rintro ⟨piece, span⟩ -
  cases piece <;> exact Bool.false_ne_true

theorem fencedSpans_enclose (tag : Tag) (span : Span) (events : List Located) :
    fencedSpans (enclose tag span events) =
      (if (Event.enter tag).isFenced then [span] else []) ++ fencedSpans events := by
  have hleaving : fencedSpans [(.leave, span)] = [] := rfl
  rw [enclose, fencedSpans_append, hleaving, List.append_nil, ← List.singleton_append,
    fencedSpans_append]
  congr 1
  cases hfenced : (Event.enter tag).isFenced <;> simp [fencedSpans, hfenced]

theorem fencedSpans_leafEvents (shared : Shared) (containers : List Container) (budget : Nat)
    (span : Span) (leaf : LeafBlock) :
    fencedSpans (leafEvents shared containers budget span leaf).1 = leaf.fenced span := by
  have hinline (tokens : List Token) :=
    (shape_inlineEvents shared containers budget span tokens).fencedSpans_eq_nil
  cases leaf with
  | paragraph tight tokens =>
      cases tight with
      | true => exact hinline tokens
      | false => exact (fencedSpans_enclose .paragraph span _).trans (hinline tokens)
  | heading level tokens =>
      exact (fencedSpans_enclose (.heading level) span _).trans (hinline tokens)
  | code info pieces =>
      rw [leafEvents, fencedSpans_enclose, fencedSpans_pieceEvents]
      cases info <;> rfl
  | html pieces => exact (fencedSpans_enclose .htmlBlock span _).trans (fencedSpans_pieceEvents _)
  | metadata pieces =>
      exact (fencedSpans_enclose .metadata span _).trans (fencedSpans_pieceEvents _)
  | rule => rfl
  | table => rfl
  | task checked => rfl

mutual

theorem fencedSpans_treeEvents (shared : Shared) (containers : List Container) (budget : Nat)
    (inFootnote : Bool) : (tree : BlockTree) →
      fencedSpans (treeEvents shared containers budget tree).1 = tree.picked fencedPick inFootnote
  | .leaf leaf span => fencedSpans_leafEvents shared containers budget span leaf
  | .node container span children => by
      have hinside := fencedSpans_treesEvents shared (containers ++ [container]) budget
        (inFootnote || container.isFootnote) children
      rw [treeEvents, BlockTree.picked, ← hinside, fencedSpans_enclose]
      cases container <;> rfl

theorem fencedSpans_treesEvents (shared : Shared) (containers : List Container) (budget : Nat)
    (inFootnote : Bool) : (trees : List BlockTree) →
      fencedSpans (treesEvents shared containers budget trees).1 =
        BlockTree.allPicked fencedPick inFootnote trees
  | [] => rfl
  | tree :: rest => by
      rw [treesEvents, fencedSpans_append, BlockTree.allPicked,
        fencedSpans_treeEvents shared containers budget inFootnote tree,
        fencedSpans_treesEvents shared containers _ inFootnote rest]

end

/-- The tracker marks the lines of fenced code in a source of plain lines. -/
theorem marked_iff (extensions : Extensions) {source : Text}
    (hplain : ∀ line ∈ Text.lineSegments source, isPlainLine line = true) :
    ∀ entry ∈ FencedLines.marked none 0 (Text.lineSegments source), entry.2 = true ↔
      ∃ span ∈ fencedSpans (ofSource extensions source).events,
        entry.1.start < span.stop ∧ span.start < entry.1.stop := by
  have hlines : PlainLines (Text.lineSegments source) := ⟨Text.lines_lineSegments source, hplain⟩
  rw [ofSource, fencedSpans_treesEvents _ [] _ false]
  exact (BlockReader.covers_readSource extensions hlines).marked_iff hlines.filled

end SourceRead

/-! ## Destinations -/

open SpacedDestination (onLines onLines_cons onLine_ascending)

theorem exists_unmarked (state : FencedLines.State) (position : Nat) (lines : List Text) :
    ∀ span ∈ onLines state position lines,
      ∃ entry ∈ FencedLines.marked state position lines, entry.2 = false ∧
        entry.1.start ≤ span.start ∧ span.stop ≤ entry.1.stop := by
  induction lines generalizing state position with
  | nil => simp [onLines]
  | cons line rest ih =>
      intro span hmem
      rw [onLines_cons] at hmem
      rw [FencedLines.marked]
      rcases List.mem_append.mp hmem with hhere | hlater
      · cases hfenced : (FencedLines.step state line).2 with
        | true => simp [hfenced] at hhere
        | false =>
            rw [hfenced, if_neg Bool.false_ne_true] at hhere
            have hbounds := (onLine_ascending _ _ _ _).mem_bounds span hhere
            exact ⟨_, List.mem_cons_self, rfl, hbounds.1, hbounds.2.2⟩
      · obtain ⟨entry, hinside, hfound⟩ := ih _ _ span hlater
        exact ⟨entry, List.mem_cons_of_mem _ hinside, hfound⟩

/-- In a source of plain lines, no destination that is wrapped lies in fenced code. -/
theorem unfenced_spans (extensions : Extensions) {source : Text}
    (hplain : ∀ line ∈ Text.lineSegments source, isPlainLine line = true) :
    ∀ span ∈ SpacedDestination.spans source,
      ∀ code ∈ fencedSpans (SourceRead.ofSource extensions source).events,
        span.stop ≤ code.start ∨ code.stop ≤ span.start := by
  intro span hmem code hinCode
  obtain ⟨entry, hmarked, hunmarked, hstarts, hstops⟩ := exists_unmarked none 0 _ span hmem
  have hapart : ¬(entry.1.start < code.stop ∧ code.start < entry.1.stop) := fun hoverlap =>
    Bool.false_ne_true (hunmarked.symm.trans
      ((SourceRead.marked_iff extensions hplain entry hmarked).mpr ⟨code, hinCode, hoverlap⟩))
  omega

/-- A fence behind the marker of an item is not seen, and the code is taken for text. -/
example : SpacedDestination.spans "- ~~~\n  [a](b c)\n".toList = [.ofLength 12 3] := by
    decide +kernel

end Canonmark.Source
