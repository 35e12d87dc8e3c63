import Canonmark.Proofs.Printed.Neighbours
import Canonmark.Proofs.Printed.Text
import Canonmark.Source.Reader

/-!
# Documents of one line

A line that stands alone is printed with an empty line behind it. As a document that is one block:
a paragraph whose content are the tokens of the line, or a block of HTML, to which the empty line
belongs if nothing on the line ends it.
-/

namespace Canonmark.Printed

open Source

variable {extensions : Extensions} {line : Text}

def alone (line : Text) : Text := line ++ '\n' :: ['\n']

theorem OneLine.alone (hone : OneLine line) : '\r' ∉ alone line := by
  simpa [Printed.alone] using hone.2

def unread (extensions : Extensions) (line : Text) : BlockReader :=
  { extensions := extensions, position := 0, rest := alone line }

def behindLeaf (extensions : Extensions) (leaf : LeafRead) : BlockReader :=
  { extensions := extensions, position := leaf.position, rest := leaf.rest,
    blocks := [.leaf leaf.leaf leaf.span] }

/-- The line is read as one leaf, behind which the empty line is left or nothing. -/
structure ReadsAlone (extensions : Extensions) (line : Text) (leaf : LeafRead) : Prop where
  first : (unread extensions line).readBlock = behindLeaf extensions leaf
  behind : leaf.rest = ['\n'] ∨ leaf.rest = []

theorem steps_behindLeaf {leaf : LeafRead} (hbehind : leaf.rest = ['\n'] ∨ leaf.rest = []) :
    ∃ position lastBlank, Steps (behindLeaf extensions leaf)
      { behindLeaf extensions leaf with
        position := position, rest := [], lastBlank := lastBlank } := by
  obtain ⟨block, span, position, rest⟩ := leaf
  obtain rfl | rfl := hbehind
  · have hempty : (behindLeaf extensions ⟨block, span, position, ['\n']⟩).readBlock =
        { behindLeaf extensions ⟨block, span, position, ['\n']⟩ with
          position := position + 1, rest := [], lastBlank := true } := by
      rw [readBlock_eq]
      exact enter_blank _ 0 [] _
    refine ⟨position + 1, true, .step ?_ (hempty ▸ .refl _)⟩
    rw [hempty]
    exact Nat.zero_lt_one
  · exact ⟨position, false, .refl _⟩

theorem ReadsAlone.readSource {leaf : LeafRead} (h : ReadsAlone extensions line leaf) :
    ∃ position lastBlank, BlockReader.readSource extensions (alone line) =
      { behindLeaf extensions leaf with
        position := position, rest := [], lastBlank := lastBlank } := by
  obtain ⟨position, lastBlank, hmore⟩ := @steps_behindLeaf extensions leaf h.behind
  have hshorter : (unread extensions line).readBlock.rest.length <
      (unread extensions line).rest.length := by
    have hleft : leaf.rest.length ≤ 1 := by
      obtain hbehind | hbehind := h.behind <;> simp [hbehind]
    have hwhole : (unread extensions line).rest.length = line.length + 2 := by
      simp [unread, alone]
    rw [h.first, hwhole]
    exact lt_of_le_of_lt hleft (by omega)
  have hsteps : Steps (unread extensions line)
      { behindLeaf extensions leaf with
        position := position, rest := [], lastBlank := lastBlank } :=
    .step hshorter (by rw [h.first]; exact hmore)
  have hall := hsteps.readBlocks rfl (Nat.lt_succ_self (alone line).length)
  refine ⟨position, lastBlank, ?_⟩
  change BlockReader.closeTo 0 _ (BlockReader.readBlocks _ (unread extensions line)) = _
  rw [hall]
  rfl

theorem ReadsAlone.ofSource {leaf : LeafRead} (h : ReadsAlone extensions line leaf) :
    SourceRead.ofSource extensions (alone line) =
      ⟨(SourceRead.treesEvents ⟨extensions, alone line, [], []⟩ []
        (max (Text.utf8Size (alone line)) SourceRead.minBudget)
        [.leaf leaf.leaf leaf.span]).1, []⟩ := by
  obtain ⟨position, lastBlank, hread⟩ := h.readSource
  rw [SourceRead.ofSource, hread]
  rfl

def loneTokens (extensions : Extensions) (line : Text) : List Token :=
  (LeafReader.pushBackslash (TokenLine.read extensions [] 0 (alone line))).reverse

theorem paragraph_alone (hone : OneLine line) :
    LeafReader.paragraph extensions [] none 0 (alone line) =
      ⟨.paragraph false (loneTokens extensions line), .upTo 0 (line.length + 1), line.length + 1,
        ['\n']⟩ := by
  have hseparator : NoSeparator extensions [] ['\n'] := by
    intro _ head hinside
    cases hinside
    rfl
  obtain ⟨hposition, hrest⟩ := TokenLine.read_line extensions [] 0 hone.alone
  rw [alone, lineLength_line hone.1] at hposition hrest
  rw [drop_line] at hrest
  rw [alone, paragraph_eq hone hseparator, LeafReader.paragraphFrom]
  simp only [hrest, hposition, Nat.zero_add]
  rfl

theorem readsAlone_paragraph (hone : OneLine line)
    (hstarts : startsParagraph extensions line = true) :
    ReadsAlone extensions line
      ⟨.paragraph false (loneTokens extensions line), .upTo 0 (line.length + 1), line.length + 1,
        ['\n']⟩ := by
  refine ⟨?_, .inl rfl⟩
  have hatLeaf : AtLeaf extensions (alone line) [] ⟨[], []⟩
      ((unread extensions line).finishList (unread extensions line).position) :=
    ⟨⟨rfl, rfl, rfl, rfl⟩, ⟨[], .nil, rfl⟩, rfl⟩
  obtain ⟨hrule, hheading, hfence, hlabels⟩ := startsParagraph_unmarked hone hstarts ['\n']
  have hparagraph := readParagraph_text hatLeaf hone hlabels (alone line).length 0 ['\n']
  have hleaf := readLeaf_eq hatLeaf (startsParagraph_plain hone hstarts ['\n']) 0
  rw [hrule, hheading, hfence] at hleaf
  have hread := @paragraph_alone extensions line hone
  rw [readBlock_eq]
  refine (startsParagraph_enter hone hstarts _ 0 ['\n'] _).trans (hleaf.trans (hparagraph.trans ?_))
  change BlockReader.finishLeaf (LeafReader.paragraph extensions [] none 0 (alone line)) _ = _
  rw [hread]
  rfl

def aloneContext (extensions : Extensions) (line : Text) : InlineContext :=
  { extensions := extensions, containers := [], definitions := [], footnotes := [],
    text := line ++ ['\n'], base := 0 }

theorem ofSource_alone (hone : OneLine line) (hstarts : startsParagraph extensions line = true) :
    SourceRead.ofSource extensions (alone line) =
      ⟨SourceRead.enclose .paragraph (.upTo 0 (line.length + 1))
        (InlineNode.eventsOf (InlineNode.ofTokens (aloneContext extensions line)
          (max (Text.utf8Size (alone line)) SourceRead.minBudget)
          (loneTokens extensions line)).1), []⟩ := by
  have hslice : Span.slice (.upTo 0 (line.length + 1)) (alone line) = line ++ ['\n'] := by
    have htaken := take_line hone.1 ['\n']
    rwa [lineLength_line hone.1] at htaken
  rw [(readsAlone_paragraph hone hstarts).ofSource]
  simp only [SourceRead.treesEvents, SourceRead.treeEvents, SourceRead.leafEvents,
    SourceRead.inlineEvents, hslice, List.append_nil, Bool.false_eq_true, if_false]
  rfl

theorem readBlock_html {text : Text} {ends : HtmlEnd}
    (hstarts : HtmlBlock.end? (text ++ '\n' :: ['\n']) = some ends) :
    (unread extensions ('<' :: text)).readBlock =
      BlockReader.finishLeaf (LeafReader.html [] ends 0 0 (alone ('<' :: text)))
        (unread extensions ('<' :: text)) := by
  have hfront : (alone ('<' :: text)).head? ≠ some ' ' ∧ (alone ('<' :: text)).head? ≠ some '\t' :=
    ⟨by simp [alone], by simp [alone]⟩
  have hfootnote : BlockReader.footnote? (headAt 0 (alone ('<' :: text)))
      (unread extensions ('<' :: text)) = none :=
    BlockReader.footnote?_eq_none _ _ (by simp [headAt, alone])
  have hitem : (headAt 0 (alone ('<' :: text))).itemMarker? 0 = none :=
    itemMarker?_none_of_head rfl (fun hbullet => absurd hbullet (by decide)) 0
  have hcolumns := takeUpTo_headAt hfront 0 4
  have hrest : (headAt 0 (alone ('<' :: text))).rest = alone ('<' :: text) := rfl
  have htaken : (headAt 0 (alone ('<' :: text))).taken = 0 := rfl
  have hpending : (headAt 0 (alone ('<' :: text))).pending = 0 := rfl
  have hlist : (unread extensions ('<' :: text)).finishList 0 = unread extensions ('<' :: text) :=
    rfl
  have htask : (unread extensions ('<' :: text)).task.isSome = false := rfl
  have hposition : (unread extensions ('<' :: text)).position = 0 := rfl
  have hmetadata : startsMetadata (alone ('<' :: text)) = false := by
    simp [startsMetadata, alone, countWhile]
  have htag : (if (alone ('<' :: text)).head? = some '<'
      then HtmlBlock.end? ((alone ('<' :: text)).drop 1) else none) = some ends := hstarts
  rw [readBlock_eq]
  refine (enter_leaf hfront hfootnote hitem (by simp [alone]) rfl _).trans ?_
  unfold BlockReader.readLeaf
  simp only [hposition, hlist, hcolumns, hrest, htaken, hpending, htask, hmetadata, htag,
    Bool.and_false, Bool.false_eq_true, if_false]
  rw [if_neg (by decide)]
  rfl

theorem htmlFrom_empty (mark : Text) (pieces : List LocatedPiece)
    (indent position fuel : Nat) :
    ∃ pieces' stop next,
      LeafReader.htmlFrom [] (.mark mark) (fuel + 1) pieces indent position ['\n'] =
        (pieces', stop, next, []) := by
  rw [LeafReader.htmlFrom]
  cases hmarked : Text.hasInfix mark (['\n'].take (lineLength ['\n'])) with
  | true =>
      simp only [hmarked, Bool.or_true, if_true]
      exact ⟨_, _, _, rfl⟩
  | false =>
      simp only [hmarked]
      exact ⟨_, _, _, rfl⟩

/--
A block of HTML that a mark ends is the line, or the line and the empty line if the mark is not
on the line.
-/
theorem htmlFrom_alone (hone : OneLine line) (mark : Text) (fuel : Nat) :
    ∃ pieces stop next rest, (rest = ['\n'] ∨ rest = []) ∧
      LeafReader.htmlFrom [] (.mark mark) (fuel + 2) [] 0 0 (alone line) =
        (pieces, stop, next, rest) := by
  have hlength : lineLength (alone line) = line.length + 1 := lineLength_line hone.1 _
  have hdrop : (alone line).drop (line.length + 1) = ['\n'] := drop_line line _
  rw [LeafReader.htmlFrom]
  simp only [hlength, hdrop]
  split
  · exact ⟨_, _, _, _, .inl rfl, rfl⟩
  · obtain ⟨pieces, stop, next, hlast⟩ := htmlFrom_empty mark _ 0 _ fuel
    exact ⟨pieces, stop, next, [], .inr rfl, hlast⟩

theorem ofSource_html {text mark : Text} (hone : OneLine ('<' :: text))
    (hstarts : HtmlBlock.end? (text ++ '\n' :: ['\n']) = some (.mark mark)) :
    ∃ span pieces, SourceRead.ofSource extensions (alone ('<' :: text)) =
      ⟨SourceRead.enclose .htmlBlock span (SourceRead.pieceEvents pieces), []⟩ := by
  obtain ⟨pieces, stop, next, rest, hbehind, hhtml⟩ :=
    htmlFrom_alone hone mark ((alone ('<' :: text)).length - 1)
  have hread : LeafReader.html [] (.mark mark) 0 0 (alone ('<' :: text)) =
      ⟨.html pieces.reverse, .upTo 0 stop, next, rest⟩ := by
    rw [LeafReader.html]
    have hfuel : (alone ('<' :: text)).length + 1 = (alone ('<' :: text)).length - 1 + 2 := rfl
    rw [hfuel, hhtml]
  have halone : ReadsAlone extensions ('<' :: text)
      ⟨.html pieces.reverse, .upTo 0 stop, next, rest⟩ :=
    ⟨by rw [readBlock_html hstarts, hread]; rfl, hbehind⟩
  refine ⟨.upTo 0 stop, pieces.reverse, ?_⟩
  rw [halone.ofSource]
  simp only [SourceRead.treesEvents, SourceRead.treeEvents, SourceRead.leafEvents]
  exact congrArg (SourceRead.mk · []) (List.append_nil _)

end Canonmark.Printed
