import Canonmark.Proofs.Canonical.Outline
import Canonmark.Proofs.Canonical.Told

/-!
# Marks of references

Whoever is asked about the references of a document, it becomes the same document but for the
marks of the references. Printed, a known reference stands in quotes, which can keep the emphasis
around it from closing; the blocks around it are read as the same blocks if they are settled.
-/

namespace Canonmark

def Leaf.unmarked : Leaf → Leaf
  | .xref identifier _ => .xref identifier false
  | content => content

namespace Inline

mutual

def unmarked : Inline → Inline
  | .leaf content => .leaf content.unmarked
  | .node kind children => .node kind (unmarkedAll children)

def unmarkedAll : List Inline → List Inline
  | [] => []
  | first :: rest => unmarked first :: unmarkedAll rest

end

theorem unmarkedAll_eq_map (nodes : List Inline) : unmarkedAll nodes = nodes.map unmarked := by
  induction nodes with
  | nil => rfl
  | cons node rest ih => rw [unmarkedAll, ih, List.map_cons]

theorem unmarkedAll_append (first second : List Inline) :
    unmarkedAll (first ++ second) = unmarkedAll first ++ unmarkedAll second := by
  simp only [unmarkedAll_eq_map, List.map_append]

end Inline

namespace Block

mutual

def unmarked : Block → Block
  | .paragraph content => .paragraph (Inline.unmarkedAll content)
  | .heading level content => .heading level (Inline.unmarkedAll content)
  | .quote depth children => .quote depth (unmarkedAll children)
  | .list kind tight items => .list kind tight (unmarkedItems items)
  | .verbatim content => .verbatim content

def unmarkedAll : List Block → List Block
  | [] => []
  | block :: rest => unmarked block :: unmarkedAll rest

def unmarkedItems : List (List Block) → List (List Block)
  | [] => []
  | item :: rest => unmarkedAll item :: unmarkedItems rest

end

theorem unmarkedAll_append (first second : List Block) :
    unmarkedAll (first ++ second) = unmarkedAll first ++ unmarkedAll second := by
  induction first with
  | nil => rfl
  | cons block rest ih => rw [List.cons_append, unmarkedAll, unmarkedAll, ih, List.cons_append]

mutual

theorem outline_unmarked (place : Place) : (block : Block) →
    outline place block.unmarked = outline place block
  | .paragraph _ | .heading _ _ | .verbatim _ => rfl
  | .quote _ children => by rw [unmarked, outline, outline, outlines_unmarkedAll .free children]
  | .list _ _ items => by rw [unmarked, outline, outline, itemOutlines_unmarkedItems items]

theorem outlines_unmarkedAll (place : Place) : (blocks : List Block) →
    outlines place (unmarkedAll blocks) = outlines place blocks
  | [] => rfl
  | block :: rest => by
      rw [unmarkedAll, outlines, outlines, outline_unmarked place block,
        outlines_unmarkedAll place rest]

theorem itemOutlines_unmarkedItems : (items : List (List Block)) →
    itemOutlines (unmarkedItems items) = itemOutlines items
  | [] => rfl
  | item :: rest => by
      rw [unmarkedItems, itemOutlines, itemOutlines, outlines_unmarkedAll .item item,
        itemOutlines_unmarkedItems rest]

end

end Block

def Document.unmarked (document : Document) : Document := Block.unmarkedAll document

theorem Document.outline_unmarked (document : Document) :
    document.unmarked.outline = document.outline :=
  Block.outlines_unmarkedAll .free document

namespace VideoParagraph

theorem isVideo_unmarked (node : Inline) : isVideo node.unmarked = isVideo node := by
  cases node with
  | leaf content => cases content <;> rfl
  | node => rfl

theorem isSoftBreak_unmarked (node : Inline) : isSoftBreak node.unmarked = isSoftBreak node := by
  cases node with
  | leaf content => cases content <;> rfl
  | node => rfl

theorem part_unmarked (content : List Inline) :
    part (Inline.unmarkedAll content) = Block.unmarkedAll (part content) := by
  have hbreaks : isSoftBreak ∘ Inline.unmarked = isSoftBreak := funext isSoftBreak_unmarked
  simp only [part, Inline.unmarkedAll_eq_map, List.dropWhile_map, hbreaks, ← List.map_reverse,
    List.isEmpty_map]
  split
  · rfl
  · rw [Block.unmarkedAll, Block.unmarked, Inline.unmarkedAll_eq_map]
    rfl

theorem splitFrom_unmarked (kept content : List Inline) :
    splitFrom (Inline.unmarkedAll kept) (Inline.unmarkedAll content) =
      Block.unmarkedAll (splitFrom kept content) := by
  have hreversed (kept : List Inline) :
      (Inline.unmarkedAll kept).reverse = Inline.unmarkedAll kept.reverse := by
    simp only [Inline.unmarkedAll_eq_map, List.map_reverse]
  induction content generalizing kept with
  | nil =>
      simp only [Inline.unmarkedAll, splitFrom]
      rw [hreversed, part_unmarked]
  | cons node rest ih =>
      simp only [Inline.unmarkedAll, splitFrom, isVideo_unmarked]
      split
      · rw [Block.unmarkedAll_append, Block.unmarkedAll, hreversed, part_unmarked, ← ih []]
        rfl
      · exact ih (node :: kept)

theorem split_unmarked (blocks : List Block) :
    split (Block.unmarkedAll blocks) = Block.unmarkedAll (split blocks) := by
  induction blocks with
  | nil => rfl
  | cons block rest ih =>
      rw [Block.unmarkedAll, split, split, List.flatMap_cons, List.flatMap_cons,
        Block.unmarkedAll_append]
      refine congrArg₂ _ ?_ ih
      cases block with
      | paragraph content =>
          have hvideos : (Inline.unmarkedAll content).any isVideo = content.any isVideo := by
            rw [Inline.unmarkedAll_eq_map, List.any_map]
            exact congrArg (content.any ·) (funext isVideo_unmarked)
          have hlength : (Inline.unmarkedAll content).length = content.length := by
            rw [Inline.unmarkedAll_eq_map, List.length_map]
          rw [Block.unmarked, splitBlock, splitBlock, hvideos, hlength]
          split
          · exact splitFrom_unmarked [] content
          · rfl
      | _ => rfl

end VideoParagraph

namespace Canonical

def nothing (_ : Text) : Bool := false

mutual

theorem elements_unmarked : (node : Inline) →
    elements node.unmarked = Inline.unmarkedAll (elements node)
  | .leaf _ => rfl
  | .node kind children => by
      rw [Inline.unmarked]
      cases hemphasis : isEmphasis kind with
      | false =>
          rw [elements_kept hemphasis, elements_kept hemphasis]
          rfl
      | true =>
          obtain ⟨opening, closing, htags⟩ := exists_tags hemphasis
          rw [htags.elements, htags.elements, List.cons_append, List.cons_append,
            elementsOf_unmarkedAll children, Inline.unmarkedAll, Inline.unmarkedAll_append]
          cases htags <;> rfl

theorem elementsOf_unmarkedAll : (nodes : List Inline) →
    elementsOf (Inline.unmarkedAll nodes) = Inline.unmarkedAll (elementsOf nodes)
  | [] => rfl
  | node :: rest => by
      rw [Inline.unmarkedAll, elementsOf, elementsOf, Inline.unmarkedAll_append,
        elements_unmarked node, elementsOf_unmarkedAll rest]

end

theorem unmarked_toldLeaf (known : Text → Bool) (content : Leaf) :
    (toldLeaf known content).unmarked = toldLeaf nothing content := by
  cases content <;> rfl

mutual

theorem unmarked_told (known : Text → Bool) : (node : Inline) →
    (told known node).unmarked = told nothing node
  | .leaf content => by
      rw [told_leaf, told_leaf, Inline.unmarked, unmarked_toldLeaf]
  | .node kind children => by
      rw [told_node, told_node, Inline.unmarked, unmarkedAll_toldAll known 0 children]

theorem unmarkedAll_toldAll (known : Text → Bool) (depth : Nat) : (nodes : List Inline) →
    Inline.unmarkedAll (toldAll known depth nodes) = toldAll nothing depth nodes
  | [] => by
      rw [toldAll_nil, toldAll_nil]
      rfl
  | node :: rest => by
      rw [toldAll_cons, toldAll_cons, Inline.unmarkedAll_append, ← unmarked_told known node,
        unmarkedAll_toldAll known _ rest]
      congr 1
      split
      · rfl
      · rw [elements_unmarked]

end

mutual

theorem unmarked_toldBlock (known : Text → Bool) : (block : Block) →
    (toldBlock known block).unmarked = toldBlock nothing block
  | .paragraph content => by
      rw [toldBlock_paragraph, toldBlock_paragraph, Block.unmarked, unmarkedAll_toldAll]
  | .heading level content => by
      rw [toldBlock_heading, toldBlock_heading, Block.unmarked, unmarkedAll_toldAll]
  | .quote depth children => by
      rw [toldBlock_quote, toldBlock_quote, Block.unmarked, ← VideoParagraph.split_unmarked,
        unmarkedAll_toldBlocks known children]
  | .list kind tight items => by
      rw [toldBlock_list, toldBlock_list, Block.unmarked, unmarkedItems_toldItems known items]
  | .verbatim content => by
      rw [toldBlock_verbatim, toldBlock_verbatim, Block.unmarked]

theorem unmarkedAll_toldBlocks (known : Text → Bool) : (blocks : List Block) →
    Block.unmarkedAll (toldBlocks known blocks) = toldBlocks nothing blocks
  | [] => by
      rw [toldBlocks_nil, toldBlocks_nil]
      rfl
  | block :: rest => by
      rw [toldBlocks_cons, toldBlocks_cons, Block.unmarkedAll, unmarked_toldBlock known block,
        unmarkedAll_toldBlocks known rest]

theorem unmarkedItems_toldItems (known : Text → Bool) : (items : List (List Block)) →
    Block.unmarkedItems (toldItems known items) = toldItems nothing items
  | [] => by
      rw [toldItems_nil, toldItems_nil]
      rfl
  | item :: rest => by
      rw [toldItems_cons, toldItems_cons, Block.unmarkedItems, unmarkedAll_toldBlocks known item,
        unmarkedItems_toldItems known rest]

end

/-- But for the marks of its references a canonical document does not depend on the resolver. -/
theorem unmarked_document (scope other : Scope) (before : Document) :
    (document scope before).value.unmarked = (document other before).value.unmarked := by
  rw [document_value, document_value]
  exact (unmarkedAll_toldBlocks _ before).trans (unmarkedAll_toldBlocks _ before).symm

theorem outline_document (scope other : Scope) (before : Document) :
    Document.outline (document scope before).value =
      Document.outline (document other before).value := by
  have hsame := congrArg Document.outline (unmarked_document scope other before)
  rwa [Document.outline_unmarked, Document.outline_unmarked] at hsame

/-- The canonical source of a text is read as the blocks that are printed in it. -/
structure Settled (settings : Settings) (text : Text) (scope : Scope) : Prop where
  blocks : Printed.allSettled settings.extensions (.document settings.compactHeadings)
    (document scope (read settings text)).value = true
  carriage : '\r' ∉ (source settings scope text).value
  plain : settings.spacedDestinations = true →
    SpacedDestination.spans (source settings scope text).value = []

/-- Settled sources have the same blocks, whoever is asked about the references in them. -/
theorem outline_read_source_eq {settings : Settings} {text : Text} {scope other : Scope}
    (h : Settled settings text scope) (h' : Settled settings text other) :
    (read settings (source settings scope text).value).outline =
      (read settings (source settings other text).value).outline := by
  rw [outline_read_source settings scope text h.blocks h.carriage h.plain,
    outline_read_source settings other text h'.blocks h'.carriage h'.plain]
  exact outline_document scope other _

/-- A quote behind a known reference keeps the emphasis around it from closing when the source is
read again; the source is settled nevertheless. -/
example :
    let known : Scope := ⟨fun query => .ok (some ⟨query.uid, none, none⟩), []⟩
    let text := "*a @Foo*b".toList
    (source {} known text).value = "*a @\"Foo\"*b\n\n".toList ∧
      Block.leavesOf (read {} (source {} known text).value) =
        [.text "*a @\"Foo\"*b".toList] ∧
      Settled {} text known :=
  ⟨by decide +kernel, by decide +kernel, by decide +kernel, by decide +kernel, by decide +kernel⟩

end Canonical

end Canonmark
