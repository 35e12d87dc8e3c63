import Canonmark.Proofs.Source.DefinitionTable
import Canonmark.Proofs.Source.Nesting
import Canonmark.Proofs.Source.RunLine
import Canonmark.Source.Reader

/-!
# Emphasis in sources

The inline content of blocks stands in the source behind one another, so that what is paired in
each of them is paired in the source.
-/

namespace Canonmark.Source

def LeafBlock.inline (span : Span) : LeafBlock → List (List Token × Span)
  | .paragraph _ tokens => [(tokens, span)]
  | .heading _ tokens => [(tokens, span)]
  | _ => []

def inlinePick : Pick (List Token × Span) where
  pick _ block span := block.inline span
  paragraph _ _ _ _ := rfl
  task _ _ _ := rfl

inductive Blocks (source : Text) : (start stop : Nat) → List (List Token × Span) → Prop
  | nil {start stop : Nat} (hle : start ≤ stop) : Blocks source start stop []
  | block {start middle stop : Nat} {tokens : List Token} {span : Span}
      {rest : List (List Token × Span)} (hle : start ≤ span.start)
      (hheld : BlockTokens source span.start span.start middle tokens)
      (hlater : Blocks source middle stop rest) :
      Blocks source start stop ((tokens, span) :: rest)

theorem BlockTokens.le {source : Text} {base start stop : Nat} {tokens : List Token}
    (h : BlockTokens source base start stop tokens) : start ≤ stop := by
  obtain ⟨task, rest, -, -, hahead⟩ := h
  exact hahead.runs.le

namespace Blocks

variable {source : Text} {start stop last : Nat} {held others : List (List Token × Span)}

theorem le (h : Blocks source start stop held) : start ≤ stop := by
  induction h with
  | nil hle => exact hle
  | block hle hheld _ ih => exact Nat.le_trans hle (Nat.le_trans hheld.le ih)

theorem append (h : Blocks source start stop held) (hlater : Blocks source stop last others) :
    Blocks source start last (held ++ others) := by
  induction h with
  | nil hle =>
      cases hlater with
      | nil hle' => exact .nil (Nat.le_trans hle hle')
      | block hle' hheld hlater => exact .block (Nat.le_trans hle hle') hheld hlater
  | block hle hheld _ ih => exact .block hle hheld (ih hlater)

theorem widen (h : Blocks source start stop held) (hle : stop ≤ last) :
    Blocks source start last held := by
  simpa using h.append (.nil hle)

theorem split (h : Blocks source start stop (held ++ others)) :
    ∃ middle, Blocks source start middle held ∧ Blocks source middle stop others := by
  induction held generalizing start with
  | nil => exact ⟨start, .nil (Nat.le_refl _), h⟩
  | cons block rest ih =>
      cases h with
      | block hle hheld hlater =>
          obtain ⟨middle, hbefore, hbehind⟩ := ih hlater
          exact ⟨middle, .block hle hheld hbefore, hbehind⟩

theorem of_leaf {read : LeafRead} (h : read.Tokened source start) (hle : last ≤ start) :
    Blocks source last read.position (read.leaf.inline read.span) := by
  obtain ⟨rfl, hahead, hheld⟩ := h
  unfold LeafBlock.inline
  split
  · next tight tokens his =>
      rw [his] at hheld
      exact .block hle hheld (.nil (Nat.le_refl _))
  · next level tokens his =>
      rw [his] at hheld
      exact .block hle hheld (.nil (Nat.le_refl _))
  · exact .nil (Nat.le_trans hle hahead)

end Blocks

namespace BlockReader

/-- What a reader has found stands in the source, and what waits for a paragraph is a check box. -/
structure Tokened (source : Text) (reader : BlockReader) : Prop where
  held : Blocks source 0 reader.position (reader.picked inlinePick)
  task : ∀ token ∈ reader.task, ∃ checked, token.mark = .task checked

variable {source : Text} {reader after : BlockReader} {head : LineHead}

namespace Tokened

theorem stay (h : reader.Tokened source) (hstays : Stays reader after)
    (hsame : after.picked inlinePick = reader.picked inlinePick) : after.Tokened source where
  held := by
    rw [hsame, hstays.position]
    exact h.held
  task := by
    rw [hstays.task]
    exact h.task

theorem advance (h : reader.Tokened source) (n : Nat) : (reader.advance n).Tokened source :=
  ⟨h.held.widen (Nat.le_add_right _ _), h.task⟩

end Tokened

theorem tokened_openItem (h : reader.Tokened source) (indent : Nat) (inner : LineHead)
    (marker : ItemMarker) (next : LineHead) :
    (openItem indent inner marker next reader).1.Tokened source := by
  have hopened := h.stay ((stays_continueList (reader.position + inner.taken - indent)
    marker.marker marker.number reader).trans (stays_push (.item marker.indent)
      (reader.position + inner.taken - indent) _)) (by rw [picked_push, picked_continueList])
  unfold openItem
  simp only
  split
  · exact (hopened.advance _).stay ⟨rfl, rfl, rfl, rfl, rfl⟩ rfl
  split
  · exact hopened
  next checked boxed htask =>
  split
  · have hmarked := hopened.stay (stays_append (.leaf (.task checked)
      (.upTo (reader.position + next.taken) (reader.position + boxed.taken))) _)
      (by simp [picked_append, BlockTree.picked, inlinePick, LeafBlock.inline])
    exact (hmarked.advance _).stay ⟨rfl, rfl, rfl, rfl, rfl⟩ rfl
  · exact ⟨hopened.held, by simp⟩

theorem tokened_openContainers (h : reader.Tokened source) (fuel : Nat) (head : LineHead) :
    (openContainers fuel head reader).1.Tokened source := by
  induction fuel generalizing head reader with
  | zero => exact h
  | succ fuel ih =>
      unfold openContainers
      simp only
      split
      · exact h
      split
      · next hfootnote =>
          obtain ⟨label, length, rfl⟩ := exists_openFootnote hfootnote
          exact ih ((h.advance length).stay (stays_openFootnote _ _ _ _) (by simp)) _
      split
      · next marker next _ =>
          have hitem := tokened_openItem h (head.takeUpTo 4).1 (head.takeUpTo 4).2 marker next
          split
          · next hopened =>
              rw [hopened] at hitem
              split
              · exact hitem
              · exact ih hitem _
          · next hopened =>
              rw [hopened] at hitem
              exact hitem
      split
      · exact ih (h.stay ((stays_finishList _ _).trans (stays_push _ _ _)) (by simp)) _
      · exact h

theorem tokened_blankLine (h : reader.Tokened source) (n : Nat) :
    (reader.blankLine n).Tokened source :=
  (h.advance n).stay (stays_blankLine n reader) (by simp)

theorem tokened_finishLeaf (h : reader.Tokened source) {read : LeafRead} {start : Nat}
    (htokened : read.Tokened source start) (hle : reader.position ≤ start) :
    (finishLeaf read reader).Tokened source where
  held := by
    change Blocks source 0 read.position ((reader.append (.leaf read.leaf read.span)).picked _)
    rw [picked_append]
    exact h.held.append (.of_leaf htokened hle)
  task := by
    change ∀ token ∈ (reader.append (.leaf read.leaf read.span)).task, _
    rw [(stays_append _ reader).task]
    exact h.task

theorem tokened_readText (h : reader.Tokened source)
    (hhere : source.drop reader.position = reader.rest) (hstands : reader.HasHead head) :
    (readText head reader).Tokened source := by
  have hread := LeafReader.tokened_paragraph h.task reader.extensions reader.containers
    (hstands.source hhere)
  have hboxed : ({ reader with task := none } : BlockReader).Tokened source := ⟨h.held, by simp⟩
  exact tokened_finishLeaf hboxed hread (Nat.le_add_right _ _)

theorem tokened_readParagraph (h : reader.Tokened source)
    (hhere : source.drop reader.position = reader.rest) (fuel : Nat)
    (hstands : reader.HasHead head) :
    (readParagraph fuel head reader).Tokened source := by
  induction fuel generalizing head reader with
  | zero => exact h
  | succ fuel ih =>
      unfold readParagraph
      simp only
      split
      · exact tokened_readText h hhere hstands
      next definition length _ =>
      have hnext (ending : Nat) : Tokened source
          { reader.advance (head.taken + length + ending) with
            definitions := Definition.register reader.definitions definition } :=
        ⟨(h.advance _).held, h.task⟩
      split
      · exact hnext _
      · refine ih (hnext _) (((Onward.refl _ _).drop _).source hhere) ?_
        exact (LineHead.leads_takeAll _).onward
          ((LineHead.leads_takeExactly _ 4).onward (LineHead.onward_within _ _ _))

theorem tokened_readLeaf (h : reader.Tokened source)
    (hhere : source.drop reader.position = reader.rest) (hstands : reader.HasHead head) :
    (readLeaf head reader).Tokened source := by
  have hstays := stays_finishList reader.position reader
  have hread := h.stay hstays (picked_finishList _ _)
  have hinner := (hstands.stay hstays).leads (LineHead.leads_takeUpTo head 4)
  rw [← hstays.position, ← hstays.rest] at hhere
  have hahead : (reader.finishList reader.position).position ≤
      (reader.finishList reader.position).position + (head.takeUpTo 4).2.taken :=
    Nat.le_add_right _ _
  unfold readLeaf
  simp only
  split
  · exact tokened_readText hread hhere ((hstands.stay hstays).leads (LineHead.leads_takeAll head))
  split
  · have hblank (blank : Bool) : ({ reader.finishList reader.position with
        lastBlank := blank } : BlockReader).Tokened source := ⟨hread.held, hread.task⟩
    exact tokened_finishLeaf (hblank _)
      (.of_nil rfl (LeafReader.from_indentedCode _ _ _ _).le rfl) hahead
  split
  · exact tokened_finishLeaf hread (.of_nil rfl (LeafReader.from_metadata _ _ _).le rfl) hahead
  split
  · exact tokened_finishLeaf hread (.of_nil rfl (LeafReader.from_html _ _ _ _ _).le rfl) hahead
  split
  · exact tokened_finishLeaf hread (.of_nil rfl (Nat.le_add_right _ _) rfl) hahead
  split
  · exact tokened_finishLeaf hread
      (LeafReader.tokened_heading _ _ (hinner.source hhere)) hahead
  split
  · exact tokened_finishLeaf hread (.of_nil rfl (LeafReader.from_fencedCode _ _ _ _ _ _).le rfl)
      hahead
  · exact tokened_readParagraph hread hhere _ hinner

variable {extensions : Extensions}

theorem tokened_readBlock (h : reader.Tokened source)
    (hreading : Reading extensions source reader) : reader.readBlock.Tokened source := by
  have hstart := (HasHead.start reader).leads
    (LineHead.leads_continuation reader.containers (LineHead.start reader.rest))
  have hstays := stays_closeTo
    (LineHead.continuation reader.containers (LineHead.start reader.rest)).1 reader.position reader
  have hclosed := h.stay hstays (picked_closeTo _ _ _)
  have hopened := tokened_openContainers hclosed
    ((reader.closeTo (LineHead.continuation reader.containers (LineHead.start reader.rest)).1
      reader.position).rest.length + 1)
    (LineHead.continuation reader.containers (LineHead.start reader.rest)).2
  have hstands := opened_openContainers (hreading.stay hstays)
    ((reader.closeTo (LineHead.continuation reader.containers (LineHead.start reader.rest)).1
      reader.position).rest.length + 1) (hstart.stay hstays)
  unfold readBlock
  simp only
  split
  · next hnone =>
      rw [hnone] at hopened
      exact hopened
  · next hsome =>
      rw [hsome] at hopened hstands
      split
      · exact tokened_blankLine hopened _
      · exact tokened_readLeaf hopened hstands.1.rest (hstands.2 _ rfl)

theorem tokened_readBlocks (h : reader.Tokened source) (hreading : Reading extensions source reader)
    (fuel : Nat) : (readBlocks fuel reader).Tokened source := by
  induction fuel generalizing reader with
  | zero => exact h
  | succ fuel ih =>
      unfold readBlocks
      split
      · exact h
      · exact ih (tokened_readBlock h hreading) (reading_readBlock hreading)

theorem tokened_readSource (extensions : Extensions) (source : Text) :
    (readSource extensions source).Tokened source := by
  have hstart : Tokened source { extensions := extensions, position := 0, rest := source } :=
    ⟨.nil (Nat.le_refl _), by simp⟩
  have hreading : Reading extensions source
      { extensions := extensions, position := 0, rest := source } :=
    ⟨⟨by simp, .nil, by simp, .nil⟩, rfl, rfl⟩
  exact (tokened_readBlocks hstart hreading _).stay (stays_closeTo _ _ _) (picked_closeTo _ _ _)

end BlockReader

namespace SourceRead

variable {shared : Shared} {start stop : Nat}

theorem emphases_enclose {tag : Tag} (hnone : emphasisWidth? tag = none) (span : Span)
    (events : List Located) : emphases (enclose tag span events) = emphases events := by
  rw [enclose, emphases_enclosed, hnone]
  rfl

theorem emphases_pieceEvents (pieces : List LocatedPiece) :
    emphases (pieceEvents pieces) = [] := by
  rw [emphases, pieceEvents, List.filterMap_map, List.filterMap_eq_nil_iff]
  rintro ⟨piece, span⟩ -
  cases piece <;> rfl

theorem paired_inlineEvents {span : Span} {tokens : List Token}
    (h : BlockTokens shared.source span.start start stop tokens) (containers : List Container)
    (budget : Nat) : Paired shared.source start stop
      (emphases (inlineEvents shared containers budget span tokens).1) := by
  refine paired_ofTokens ?_ budget h
  intro i c hfound
  have ⟨hlt, _⟩ := List.getElem?_eq_some_iff.mp hfound
  simp only [Span.slice, List.length_take] at hlt
  simpa only [Span.slice, List.getElem?_take_of_lt (show i < span.stop - span.start by omega),
    List.getElem?_drop] using hfound

theorem paired_leafEvents {leaf : LeafBlock} {span : Span}
    (h : Blocks shared.source start stop (leaf.inline span)) (containers : List Container)
    (budget : Nat) : Paired shared.source start stop
      (emphases (leafEvents shared containers budget span leaf).1) := by
  cases leaf with
  | paragraph tight tokens =>
      cases h with
      | block hle hheld hlater =>
          have hpaired := (paired_inlineEvents hheld containers budget).widen hle hlater.le
          cases tight with
          | true => exact hpaired
          | false =>
              have hsame := @emphases_enclose .paragraph rfl span
              rwa [← hsame] at hpaired
  | heading level tokens =>
      cases h with
      | block hle hheld hlater =>
          have hpaired := (paired_inlineEvents hheld containers budget).widen hle hlater.le
          rw [leafEvents]
          rwa [emphases_enclose rfl]
  | code info pieces =>
      rw [leafEvents, emphases_enclose rfl, emphases_pieceEvents]
      exact .nil h.le
  | html pieces =>
      rw [leafEvents, emphases_enclose rfl, emphases_pieceEvents]
      exact .nil h.le
  | metadata pieces =>
      rw [leafEvents, emphases_enclose rfl, emphases_pieceEvents]
      exact .nil h.le
  | rule => exact .nil h.le
  | table => exact .nil h.le
  | task checked => exact .nil h.le

mutual

theorem paired_treeEvents (inFootnote : Bool) (containers : List Container) (budget : Nat)
    {start stop : Nat} : (tree : BlockTree) →
      Blocks shared.source start stop (tree.picked inlinePick inFootnote) →
      Paired shared.source start stop (emphases (treeEvents shared containers budget tree).1)
  | .leaf leaf span, h => paired_leafEvents h containers budget
  | .node container span children, h => by
      have hinside := paired_treesEvents (inFootnote || container.isFootnote)
        (containers ++ [container]) budget children h
      rw [treeEvents]
      rwa [emphases_enclose (by cases container <;> rfl)]

theorem paired_treesEvents (inFootnote : Bool) (containers : List Container) (budget : Nat)
    {start stop : Nat} : (trees : List BlockTree) →
      Blocks shared.source start stop (BlockTree.allPicked inlinePick inFootnote trees) →
      Paired shared.source start stop (emphases (treesEvents shared containers budget trees).1)
  | [], h => .nil h.le
  | tree :: rest, h => by
      obtain ⟨middle, hfirst, hlater⟩ := Blocks.split h
      rw [treesEvents, emphases_append]
      exact (paired_treeEvents inFootnote containers budget tree hfirst).append
        (paired_treesEvents inFootnote containers _ rest hlater)

end

/-- Emphasis lies between two delimiters each, and pairs of them lie behind or in one another. -/
theorem paired_ofSource (extensions : Extensions) (source : Text) :
    Paired source 0 source.length (emphases (ofSource extensions source).events) := by
  have hheld := (BlockReader.tokened_readSource extensions source).held
  have hclosed : (BlockReader.readSource extensions source).spine = [] :=
    BlockReader.spine_closeTo _ _
  rw [BlockReader.picked, hclosed, BlockReader.spinePicked] at hheld
  unfold ofSource
  extract_lets reader shared budget
  have hpaired := @paired_treesEvents shared false [] budget _ _ _ hheld
  exact hpaired.inside (Nat.zero_le _)

end SourceRead

end Canonmark.Source
