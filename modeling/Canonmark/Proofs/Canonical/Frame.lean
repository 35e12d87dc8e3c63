import Canonmark.Canonical.Document
import Canonmark.Proofs.Canonical.Parts

/-!
# What canonical documents keep

A document becomes canonical node by node. Emphasis may turn into a pair of tags, and paragraphs
of quotes may be split around their videos; all other nodes stay where they are, and so do the
leaves, but for soft breaks at the edges of the parts of a split paragraph.
-/

namespace Canonmark.Canonical

open VideoParagraph (Isolates LosesBreaks isolates_split)

inductive LeafBecomes : Leaf → Leaf → Prop where
  | same (leaf : Leaf) : LeafBecomes leaf leaf
  | xref (identifier : Text) (resolved known : Bool) :
      LeafBecomes (.xref identifier resolved) (.xref identifier known)
  | mail (scheme : Option Text) (address : Text) :
      LeafBecomes (.mail scheme address) (.mail none address)

inductive WrapperBecomes : Wrapper → Wrapper → Prop where
  | emphasis (delimiter : Char) : WrapperBecomes (.emphasis delimiter) (.emphasis delimiter)
  | strong (delimiter : Char) : WrapperBecomes (.strong delimiter) (.strong delimiter)
  | strike (delimiter : Text) : WrapperBecomes (.strike delimiter) (.strike delimiter)
  | link (image : Bool) (destination : Text) (title : Option Text) :
      WrapperBecomes (.link image destination title)
        (.link image (Percent.encode destination) title)

inductive Tags : Wrapper → Leaf → Leaf → Prop where
  | emphasis (delimiter : Char) :
      Tags (.emphasis delimiter) (.html "<em>".toList) (.html "</em>".toList)
  | strong (delimiter : Char) :
      Tags (.strong delimiter) (.html "<strong>".toList) (.html "</strong>".toList)

inductive InlinesBecome : List Inline → List Inline → Prop where
  | nil : InlinesBecome [] []
  | leaf {leaf leaf' : Leaf} {rest rest' : List Inline} :
      LeafBecomes leaf leaf' → InlinesBecome rest rest' →
        InlinesBecome (.leaf leaf :: rest) (.leaf leaf' :: rest')
  | node {kind kind' : Wrapper} {children children' rest rest' : List Inline} :
      WrapperBecomes kind kind' → InlinesBecome children children' → InlinesBecome rest rest' →
        InlinesBecome (.node kind children :: rest) (.node kind' children' :: rest')
  | tags {kind : Wrapper} {opening closing : Leaf} {children children' rest rest' : List Inline} :
      Tags kind opening closing → InlinesBecome children children' → InlinesBecome rest rest' →
        InlinesBecome (.node kind children :: rest)
          (.leaf opening :: children' ++ .leaf closing :: rest')

def VerbatimBecomes : Verbatim → Verbatim → Prop
  | .html html, after => after = .html (Html.markEmphasis html)
  | content, after => after = content

mutual

def BlockBecomes : Block → Block → Prop
  | .paragraph content, .paragraph content' => InlinesBecome content content'
  | .heading level content, .heading level' content' =>
      level' = level ∧ InlinesBecome content content'
  | .quote depth children, .quote depth' after =>
      depth' = depth ∧ ∃ children', BlocksBecome children children' ∧ Isolates children' after
  | .list kind tight items, .list kind' tight' items' =>
      kind' = kind ∧ tight' = tight ∧ ItemsBecome items items'
  | .verbatim content, .verbatim after => VerbatimBecomes content after
  | _, _ => False

def BlocksBecome : List Block → List Block → Prop
  | [], after => after = []
  | block :: rest, block' :: rest' => BlockBecomes block block' ∧ BlocksBecome rest rest'
  | _ :: _, [] => False

def ItemsBecome : List (List Block) → List (List Block) → Prop
  | [], after => after = []
  | item :: rest, item' :: rest' => BlocksBecome item item' ∧ ItemsBecome rest rest'
  | _ :: _, [] => False

end

def isEmphasis : Wrapper → Bool
  | .emphasis _ | .strong _ => true
  | _ => false

theorem elements_kept {kind : Wrapper} (h : isEmphasis kind = false) (children : List Inline) :
    elements (.node kind children) = [.node kind children] := by
  cases kind with
  | strike | link => rw [elements]; rfl
  | emphasis | strong => cases h

theorem exists_tags {kind : Wrapper} (h : isEmphasis kind = true) :
    ∃ opening closing, Tags kind opening closing := by
  cases kind with
  | strike | link => cases h
  | emphasis delimiter => exact ⟨_, _, .emphasis delimiter⟩
  | strong delimiter => exact ⟨_, _, .strong delimiter⟩

theorem Tags.elements {kind : Wrapper} {opening closing : Leaf} (h : Tags kind opening closing)
    (children : List Inline) :
    Canonical.elements (.node kind children) =
      .leaf opening :: elementsOf children ++ [.leaf closing] := by
  cases h <;> rw [Canonical.elements] <;> rfl

theorem elements_node (kind : Wrapper) (children : List Inline) :
    elements (.node kind children) = [.node kind children] ∨
      ∃ opening closing, Tags kind opening closing ∧ elements (.node kind children) =
        .leaf opening :: elementsOf children ++ [.leaf closing] := by
  cases hemphasis : isEmphasis kind with
  | false => exact .inl (elements_kept hemphasis children)
  | true =>
      obtain ⟨opening, closing, htags⟩ := exists_tags hemphasis
      exact .inr ⟨opening, closing, htags, htags.elements children⟩

theorem WrapperBecomes.tags {kind kind' : Wrapper} {opening closing : Leaf}
    (h : WrapperBecomes kind kind') (htags : Tags kind' opening closing) :
    Tags kind opening closing := by
  cases h with
  | link => cases htags
  | _ => exact htags

theorem elementsOf_append (first second : List Inline) :
    elementsOf (first ++ second) = elementsOf first ++ elementsOf second := by
  induction first with
  | nil => rfl
  | cons node rest ih => rw [List.cons_append, elementsOf, elementsOf, ih, List.append_assoc]

namespace InlinesBecome

theorem append {first first' second second' : List Inline} (h : InlinesBecome first first')
    (h' : InlinesBecome second second') :
    InlinesBecome (first ++ second) (first' ++ second') := by
  induction h with
  | nil => exact h'
  | leaf hcontent _ ih => exact .leaf hcontent ih
  | node hkind hchildren _ _ ih => exact .node hkind hchildren ih
  | tags htags hchildren _ _ ih =>
      rw [List.append_assoc]
      exact .tags htags hchildren ih

theorem elementsOf {before after : List Inline} (h : InlinesBecome before after) :
    InlinesBecome before (elementsOf after) := by
  induction h with
  | nil => exact .nil
  | leaf hcontent _ ih => exact .leaf hcontent ih
  | node hkind hchildren _ hinside ih =>
      rw [Canonical.elementsOf]
      rcases elements_node _ _ with hkept | ⟨opening, closing, htags, hmarked⟩
      · rw [hkept]
        exact .node hkind hchildren ih
      · rw [hmarked, List.append_assoc]
        exact .tags (hkind.tags htags) hinside ih
  | tags htags _ _ hinside ih =>
      rw [elementsOf_append]
      exact .tags htags hinside ih

end InlinesBecome

inductive Tagged : List Leaf → List Leaf → Prop where
  | nil : Tagged [] []
  | leaf {leaf leaf' : Leaf} {rest rest' : List Leaf} :
      LeafBecomes leaf leaf' → Tagged rest rest' → Tagged (leaf :: rest) (leaf' :: rest')
  | tags {kind : Wrapper} {opening closing : Leaf} {inside inside' rest rest' : List Leaf} :
      Tags kind opening closing → Tagged inside inside' → Tagged rest rest' →
        Tagged (inside ++ rest) (opening :: inside' ++ closing :: rest')

theorem Tagged.append {first first' second second' : List Leaf} (h : Tagged first first')
    (h' : Tagged second second') : Tagged (first ++ second) (first' ++ second') := by
  induction h with
  | nil => exact h'
  | leaf hcontent _ ih => exact .leaf hcontent ih
  | tags htags hinside _ _ ih =>
      rw [List.append_assoc, List.append_assoc]
      exact .tags htags hinside ih

/-- Tags are inserted, and then soft breaks are lost. -/
def LeavesBecome (before after : List Leaf) : Prop :=
  ∃ tagged, Tagged before tagged ∧ LosesBreaks tagged after

namespace LeavesBecome

theorem append {first first' second second' : List Leaf} (h : LeavesBecome first first')
    (h' : LeavesBecome second second') : LeavesBecome (first ++ second) (first' ++ second') := by
  obtain ⟨tagged, htags, hloses⟩ := h
  obtain ⟨tagged', htags', hloses'⟩ := h'
  exact ⟨tagged ++ tagged', htags.append htags', hloses.append hloses'⟩

theorem trans {before between after : List Leaf} (h : LeavesBecome before between)
    (h' : LosesBreaks between after) : LeavesBecome before after := by
  obtain ⟨tagged, htags, hloses⟩ := h
  exact ⟨tagged, htags, hloses.trans h'⟩

end LeavesBecome

theorem InlinesBecome.tagged {before after : List Inline} (h : InlinesBecome before after) :
    Tagged (Inline.leavesOf before) (Inline.leavesOf after) := by
  induction h with
  | nil => exact .nil
  | leaf hcontent _ ih => exact .leaf hcontent ih
  | node _ _ _ hinside ih => exact hinside.append ih
  | tags htags _ _ hinside ih =>
      rw [Inline.leavesOf_append]
      exact .tags htags hinside ih

theorem InlinesBecome.leaves {before after : List Inline} (h : InlinesBecome before after) :
    LeavesBecome (Inline.leavesOf before) (Inline.leavesOf after) :=
  ⟨_, h.tagged, .refl _⟩

mutual

theorem leaves_block : (before after : Block) → BlockBecomes before after →
    LeavesBecome before.leaves after.leaves
  | .paragraph _, .paragraph _, h => InlinesBecome.leaves h
  | .heading _ _, .heading _ _, h => InlinesBecome.leaves h.2
  | .quote _ children, .quote _ _, ⟨_, children', h, hisolates⟩ =>
      (leaves_blocks children children' h).trans hisolates.leaves
  | .list _ _ items, .list _ _ items', h => leaves_items items items' h.2.2
  | .verbatim _, .verbatim _, _ => ⟨[], .nil, .refl []⟩

theorem leaves_blocks : (before after : List Block) → BlocksBecome before after →
    LeavesBecome (Block.leavesOf before) (Block.leavesOf after)
  | [], _, rfl => ⟨[], .nil, .refl []⟩
  | block :: rest, block' :: rest', h =>
      (leaves_block block block' h.1).append (leaves_blocks rest rest' h.2)

theorem leaves_items : (before after : List (List Block)) → ItemsBecome before after →
    LeavesBecome (Block.itemLeaves before) (Block.itemLeaves after)
  | [], _, rfl => ⟨[], .nil, .refl []⟩
  | item :: rest, item' :: rest', h =>
      (leaves_blocks item item' h.1).append (leaves_items rest rest' h.2)

end

end Canonmark.Canonical
