import Canonmark.Proofs.Canonical.Told
import Canonmark.Proofs.Destination.Percent

/-!
# Canonical documents made canonical again

A stable document is one that becoming canonical leaves as it is. A canonical document is stable
if the emphasis in the document it was made of leaves no HTML element open: where emphasis
becomes elements, the tags inside it are siblings of what follows.
-/

namespace Canonmark.Canonical

variable {known : Text → Bool} {depth lower : Nat}

def depthBehind (depth : Nat) (nodes : List Inline) : Nat := nodes.foldl depthAfter depth

theorem depthBehind_append (depth : Nat) (first second : List Inline) :
    depthBehind depth (first ++ second) = depthBehind (depthBehind depth first) second :=
  List.foldl_append

theorem toldAll_append (known : Text → Bool) (depth : Nat) (first second : List Inline) :
    toldAll known depth (first ++ second) =
      toldAll known depth first ++ toldAll known (depthBehind depth first) second := by
  induction first generalizing depth with
  | nil => rw [toldAll_nil]; rfl
  | cons node rest ih =>
      rw [List.cons_append, toldAll_cons, toldAll_cons, ih, List.append_assoc]
      rfl

theorem depthAfter_le_add (depth more : Nat) (node : Inline) :
    depthAfter (depth + more) node ≤ depth + depthAfter more node := by
  cases node with
  | node => exact Nat.le_refl _
  | leaf content =>
      cases content with
      | html fragment =>
          rw [depthAfter, depthAfter]
          cases Html.Nesting.ofFragment fragment <;> simp only [Html.Nesting.depthAfter] <;> omega
      | _ => exact Nat.le_refl _

theorem depthAfter_mono (h : lower ≤ depth) (node : Inline) :
    depthAfter lower node ≤ depthAfter depth node := by
  cases node with
  | node => exact h
  | leaf content =>
      cases content with
      | html fragment =>
          rw [depthAfter, depthAfter]
          cases Html.Nesting.ofFragment fragment <;> simp only [Html.Nesting.depthAfter] <;> omega
      | _ => exact h

theorem depthBehind_mono (h : lower ≤ depth) (nodes : List Inline) :
    depthBehind lower nodes ≤ depthBehind depth nodes := by
  induction nodes generalizing lower depth with
  | nil => exact h
  | cons node rest ih => exact ih (depthAfter_mono h node)

theorem depthBehind_le_add (depth more : Nat) (nodes : List Inline) :
    depthBehind (depth + more) nodes ≤ depth + depthBehind more nodes := by
  induction nodes generalizing more with
  | nil => exact Nat.le_refl _
  | cons node rest ih =>
      exact (depthBehind_mono (depthAfter_le_add depth more node) rest).trans (ih _)

namespace Tags

variable {kind : Wrapper} {opening closing : Leaf}

theorem wrapper (h : Tags kind opening closing) :
    Tags (Canonical.wrapper kind) opening closing := by
  cases h <;> constructor

theorem toldLeaf (h : Tags kind opening closing) :
    Canonical.toldLeaf known opening = opening ∧ Canonical.toldLeaf known closing = closing := by
  cases h <;> exact ⟨rfl, rfl⟩

theorem depthAfter (h : Tags kind opening closing) (depth : Nat) :
    Canonical.depthAfter depth (.leaf opening) = depth + 1 ∧
      Canonical.depthAfter depth (.leaf closing) = depth - 1 := by
  have hem : Html.Nesting.ofFragment "<em>".toList = .opens ∧
      Html.Nesting.ofFragment "</em>".toList = .closes := by decide
  have hstrong : Html.Nesting.ofFragment "<strong>".toList = .opens ∧
      Html.Nesting.ofFragment "</strong>".toList = .closes := by decide
  cases h with
  | emphasis =>
      rw [Canonical.depthAfter, Canonical.depthAfter, hem.1, hem.2]
      exact ⟨rfl, rfl⟩
  | strong =>
      rw [Canonical.depthAfter, Canonical.depthAfter, hstrong.1, hstrong.2]
      exact ⟨rfl, rfl⟩

theorem depthBehind (h : Tags kind opening closing) (depth : Nat) (inside : List Inline) :
    Canonical.depthBehind depth (.leaf opening :: inside ++ [.leaf closing]) =
      Canonical.depthBehind (depth + 1) inside - 1 := by
  rw [depthBehind_append]
  change Canonical.depthAfter (Canonical.depthBehind (Canonical.depthAfter depth _) inside) _ = _
  rw [(h.depthAfter depth).1, (h.depthAfter _).2]

end Tags

mutual

theorem elementsOf_elements : (node : Inline) → elementsOf (elements node) = elements node
  | .leaf _ => rfl
  | .node kind children => by
      cases hemphasis : isEmphasis kind with
      | false =>
          rw [elements_kept hemphasis, elementsOf, elementsOf, elements_kept hemphasis]
          rfl
      | true =>
          obtain ⟨opening, closing, htags⟩ := exists_tags hemphasis
          rw [htags.elements, elementsOf_append, ← List.singleton_append, elementsOf_append,
            elementsOf_elementsOf children]
          rfl

theorem elementsOf_elementsOf : (nodes : List Inline) →
    elementsOf (elementsOf nodes) = elementsOf nodes
  | [] => rfl
  | node :: rest => by
      rw [elementsOf, elementsOf_append, elementsOf_elements node, elementsOf_elementsOf rest]

end

theorem elementsOf_singleton (node : Inline) : elementsOf [node] = elements node :=
  List.append_nil _

theorem elementsOf_ite (outside : Prop) [Decidable outside] (node : Inline) :
    elementsOf (if outside then [node] else elements node) = elements node := by
  split
  · exact elementsOf_singleton node
  · exact elementsOf_elements node

theorem isEmphasis_wrapper (kind : Wrapper) : isEmphasis (wrapper kind) = isEmphasis kind := by
  cases kind <;> rfl

theorem depthAfter_toldLeaf (depth : Nat) (content : Leaf) :
    depthAfter depth (.leaf (toldLeaf known content)) = depthAfter depth (.leaf content) := by
  cases content <;> rfl

mutual

theorem depthBehind_elements_told (depth : Nat) : (node : Inline) →
    depthBehind depth (elements (told known node)) = depthBehind depth (elements node)
  | .leaf content => by
      rw [told_leaf]
      exact depthAfter_toldLeaf depth content
  | .node kind children => by
      rw [told_node]
      cases hemphasis : isEmphasis kind with
      | false =>
          rw [elements_kept hemphasis, elements_kept ((isEmphasis_wrapper kind).trans hemphasis)]
          rfl
      | true =>
          obtain ⟨opening, closing, htags⟩ := exists_tags hemphasis
          rw [htags.elements, htags.wrapper.elements, htags.depthBehind, htags.depthBehind,
            depthBehind_elementsOf_toldAll (depth + 1) 0 children]

theorem depthBehind_elementsOf_toldAll (depth inner : Nat) : (nodes : List Inline) →
    depthBehind depth (elementsOf (toldAll known inner nodes)) =
      depthBehind depth (elementsOf nodes)
  | [] => by rw [toldAll_nil]
  | node :: rest => by
      rw [toldAll_cons, elementsOf_append, elementsOf_ite, depthBehind_append, elementsOf,
        depthBehind_append, depthBehind_elements_told depth node,
        depthBehind_elementsOf_toldAll _ _ rest]

end

mutual

/-- The emphasis in a node leaves no element open that is opened in it. -/
def tidy : Inline → Bool
  | .leaf _ => true
  | .node kind children =>
      (!isEmphasis kind || depthBehind 0 (elementsOf children) = 0) && allTidy children

def allTidy : List Inline → Bool
  | [] => true
  | node :: rest => tidy node && allTidy rest

end

mutual

def tidyBlock : Block → Bool
  | .paragraph content => allTidy content
  | .heading _ content => allTidy content
  | .quote _ children => tidyBlocks children
  | .list _ _ items => tidyItems items
  | .verbatim content => verbatim (verbatim content) = verbatim content

def tidyBlocks : List Block → Bool
  | [] => true
  | block :: rest => tidyBlock block && tidyBlocks rest

def tidyItems : List (List Block) → Bool
  | [] => true
  | item :: rest => tidyBlocks item && tidyItems rest

end

/-! ## Stable content -/

mutual

def Stable (known : Text → Bool) : Inline → Prop
  | .leaf content => toldLeaf known content = content
  | .node kind children => wrapper kind = kind ∧ AllStable known 0 children

/-- Siblings, the first of which follows `depth` open elements: no emphasis stands between tags. -/
def AllStable (known : Text → Bool) (depth : Nat) : List Inline → Prop
  | [] => True
  | node :: rest =>
      Stable known node ∧ (depthAfter depth node = 0 ∨ elements node = [node]) ∧
        AllStable known (depthAfter depth node) rest

end

mutual

theorem Stable.told : (node : Inline) → Stable known node → told known node = node
  | .leaf content, h => by rw [told_leaf, h]
  | .node kind children, h => by rw [told_node, h.1, AllStable.toldAll 0 children h.2]

theorem AllStable.toldAll (depth : Nat) : (nodes : List Inline) → AllStable known depth nodes →
    toldAll known depth nodes = nodes
  | [], _ => toldAll_nil known depth
  | node :: rest, ⟨hstable, hfree, hothers⟩ => by
      rw [toldAll_cons, Stable.told node hstable, AllStable.toldAll _ rest hothers]
      rcases hfree with houtside | hkept
      · rw [if_pos houtside, List.singleton_append]
      · rw [hkept, ite_self, List.singleton_append]

end

theorem allStable_append {first second : List Inline} :
    AllStable known depth (first ++ second) ↔
      AllStable known depth first ∧ AllStable known (depthBehind depth first) second := by
  induction first generalizing depth with
  | nil => exact (and_iff_right trivial).symm
  | cons node rest ih =>
      rw [List.cons_append, AllStable, AllStable, ih, and_assoc, and_assoc]
      rfl

theorem AllStable.mono {nodes : List Inline} (h : AllStable known depth nodes)
    (hless : lower ≤ depth) : AllStable known lower nodes := by
  induction nodes generalizing lower depth with
  | nil => trivial
  | cons node rest ih =>
      obtain ⟨hstable, hfree, hothers⟩ := h
      refine ⟨hstable, hfree.imp_left fun houtside => ?_, ih hothers (depthAfter_mono hless node)⟩
      exact Nat.eq_zero_of_le_zero (houtside ▸ depthAfter_mono hless node)

mutual

theorem allStable_elements (depth : Nat) : (node : Inline) → Stable known node →
    AllStable known depth (elements node)
  | .leaf _, h => ⟨h, .inr rfl, trivial⟩
  | .node kind children, h => by
      cases hemphasis : isEmphasis kind with
      | false =>
          have hkept := elements_kept hemphasis children
          rw [hkept]
          exact ⟨h, .inr hkept, trivial⟩
      | true =>
          obtain ⟨opening, closing, htags⟩ := exists_tags hemphasis
          rw [htags.elements, List.cons_append]
          refine ⟨htags.toldLeaf.1, .inr rfl, allStable_append.mpr ⟨?_, ?_⟩⟩
          · exact allStable_elementsOf _ 0 children h.2
          · exact ⟨htags.toldLeaf.2, .inr rfl, trivial⟩

theorem allStable_elementsOf (depth inner : Nat) : (nodes : List Inline) →
    AllStable known inner nodes → AllStable known depth (elementsOf nodes)
  | [], _ => trivial
  | node :: rest, ⟨hstable, _, hothers⟩ => by
      rw [elementsOf, allStable_append]
      exact ⟨allStable_elements depth node hstable, allStable_elementsOf _ _ rest hothers⟩

end

theorem toldLeaf_toldLeaf (known : Text → Bool) (content : Leaf) :
    toldLeaf known (toldLeaf known content) = toldLeaf known content := by
  cases content with
  | mail scheme address =>
      have hnamed (scheme : Option Text) : toldLeaf known (.mail scheme address) =
          .mail (if isAddress address then none else scheme) address := rfl
      rw [hnamed, hnamed]
      split <;> rfl
  | _ => rfl

theorem wrapper_wrapper (kind : Wrapper) : wrapper (wrapper kind) = wrapper kind := by
  cases kind with
  | link image destination title => rw [wrapper, wrapper, Percent.encode_encode]
  | _ => rfl

theorem depthBehind_tidy {kind : Wrapper} {children : List Inline}
    (hemphasis : isEmphasis kind = true) (h : tidy (.node kind children) = true) :
    depthBehind depth (elements (.node kind children)) ≤ depth := by
  rw [tidy, hemphasis, Bool.not_true, Bool.false_or, Bool.and_eq_true, decide_eq_true_eq] at h
  obtain ⟨opening, closing, htags⟩ := exists_tags hemphasis
  have hinside := depthBehind_le_add (depth + 1) 0 (elementsOf children)
  rw [h.1, Nat.add_zero] at hinside
  rw [htags.elements, htags.depthBehind]
  omega

/-- What a tidy node becomes behind `depth` elements is stable behind fewer, and leaves no more
open than the node does. -/
theorem allStable_front {node : Inline} (hless : lower ≤ depth) (h : tidy node = true)
    (hstable : Stable known (told known node)) :
    let front := if depthAfter depth node = 0 then [told known node]
      else elements (told known node)
    AllStable known lower front ∧ depthBehind lower front ≤ depthAfter depth node := by
  cases node with
  | leaf content =>
      rw [told_leaf, elements, ite_self]
      rw [told_leaf] at hstable
      refine ⟨⟨hstable, .inr rfl, trivial⟩, ?_⟩
      exact (depthAfter_toldLeaf lower content).trans_le (depthAfter_mono hless _)
  | node kind children =>
      have hemphasis' := isEmphasis_wrapper kind
      rw [told_node] at hstable ⊢
      cases hemphasis : isEmphasis kind with
      | false =>
          have hkept := elements_kept (hemphasis'.trans hemphasis) (toldAll known 0 children)
          rw [hkept, ite_self]
          exact ⟨⟨hstable, .inr hkept, trivial⟩, hless⟩
      | true =>
          by_cases houtside : depthAfter depth (.node kind children) = 0
          · obtain rfl : depth = 0 := houtside
            obtain rfl := Nat.eq_zero_of_le_zero hless
            exact ⟨⟨hstable, .inl rfl, trivial⟩, Nat.le_refl 0⟩
          · have hsame : depthBehind lower (elements (told known (.node kind children))) = _ :=
              depthBehind_elements_told lower (.node kind children)
            rw [told_node] at hsame
            rw [if_neg houtside]
            refine ⟨allStable_elements lower _ hstable, hsame.trans_le ?_⟩
            exact (depthBehind_tidy hemphasis h).trans hless

mutual

theorem stable_told : (node : Inline) → tidy node = true → Stable known (told known node)
  | .leaf content, _ => by
      rw [told_leaf]
      exact toldLeaf_toldLeaf known content
  | .node kind children, h => by
      rw [tidy, Bool.and_eq_true] at h
      rw [told_node]
      exact ⟨wrapper_wrapper kind, allStable_toldAll children h.2 (Nat.le_refl 0)⟩

theorem allStable_toldAll : (nodes : List Inline) → allTidy nodes = true →
    ∀ {depth lower : Nat}, lower ≤ depth → AllStable known lower (toldAll known depth nodes)
  | [], _, _, _, _ => by
      rw [toldAll_nil]
      trivial
  | node :: rest, h, _, _, hless => by
      rw [allTidy, Bool.and_eq_true] at h
      obtain ⟨hfront, hbehind⟩ := allStable_front hless h.1 (stable_told node h.1)
      rw [toldAll_cons, allStable_append]
      exact ⟨hfront, allStable_toldAll rest h.2 hbehind⟩

end

/-! ## Stable blocks -/

mutual

def StableBlock (known : Text → Bool) : Block → Prop
  | .paragraph content => AllStable known 0 content
  | .heading _ content => AllStable known 0 content
  | .quote _ children =>
      StableBlocks known children ∧ VideoParagraph.split children = children
  | .list _ _ items => StableItems known items
  | .verbatim content => verbatim content = content

def StableBlocks (known : Text → Bool) : List Block → Prop
  | [] => True
  | block :: rest => StableBlock known block ∧ StableBlocks known rest

def StableItems (known : Text → Bool) : List (List Block) → Prop
  | [] => True
  | item :: rest => StableBlocks known item ∧ StableItems known rest

end

mutual

theorem StableBlock.told : (block : Block) → StableBlock known block →
    toldBlock known block = block
  | .paragraph content, h => by rw [toldBlock_paragraph, AllStable.toldAll 0 content h]
  | .heading _ content, h => by rw [toldBlock_heading, AllStable.toldAll 0 content h]
  | .quote _ children, h => by rw [toldBlock_quote, StableBlocks.told children h.1, h.2]
  | .list _ _ items, h => by rw [toldBlock_list, StableItems.told items h]
  | .verbatim _, h => by rw [toldBlock_verbatim, h]

theorem StableBlocks.told : (blocks : List Block) → StableBlocks known blocks →
    toldBlocks known blocks = blocks
  | [], _ => toldBlocks_nil known
  | block :: rest, h => by
      rw [toldBlocks_cons, StableBlock.told block h.1, StableBlocks.told rest h.2]

theorem StableItems.told : (items : List (List Block)) → StableItems known items →
    toldItems known items = items
  | [], _ => toldItems_nil known
  | item :: rest, h => by
      rw [toldItems_cons, StableBlocks.told item h.1, StableItems.told rest h.2]

end

open VideoParagraph (PartIs SplitsInto)

theorem stableBlocks_append {first second : List Block} :
    StableBlocks known (first ++ second) ↔
      StableBlocks known first ∧ StableBlocks known second := by
  induction first with
  | nil => exact (and_iff_right trivial).symm
  | cons block rest ih => rw [List.cons_append, StableBlocks, StableBlocks, ih, and_assoc]

theorem PartIs.stable {content : List Inline} {paragraphs : List Block}
    (h : PartIs content paragraphs) (hstable : AllStable known depth content) :
    StableBlocks known paragraphs := by
  cases h with
  | breaks => trivial
  | text =>
      rw [allStable_append, allStable_append] at hstable
      exact ⟨hstable.1.2.mono (Nat.zero_le _), trivial⟩

theorem SplitsInto.stable {content : List Inline} {paragraphs : List Block}
    (h : SplitsInto content paragraphs) (hstable : AllStable known depth content) :
    StableBlocks known paragraphs := by
  induction h generalizing depth with
  | part _ hpart => exact PartIs.stable hpart hstable
  | video url _ hpart _ ih =>
      rw [allStable_append] at hstable
      obtain ⟨hfirst, -, -, hrest⟩ := hstable
      refine stableBlocks_append.mpr ⟨PartIs.stable hpart hfirst, ?_, ih hrest⟩
      exact ⟨rfl, .inr rfl, trivial⟩

theorem stableBlocks_split {blocks : List Block} (h : StableBlocks known blocks) :
    StableBlocks known (VideoParagraph.split blocks) := by
  induction blocks with
  | nil => trivial
  | cons block rest ih =>
      rw [VideoParagraph.split, List.flatMap_cons]
      refine stableBlocks_append.mpr ⟨?_, ih h.2⟩
      cases block with
      | paragraph content =>
          rw [VideoParagraph.splitBlock]
          split
          · exact SplitsInto.stable (VideoParagraph.splitsInto_splitFrom [] content rfl) h.1
          · exact ⟨h.1, trivial⟩
      | _ => exact ⟨h.1, trivial⟩

mutual

theorem stableBlock_toldBlock : (block : Block) → tidyBlock block = true →
    StableBlock known (toldBlock known block)
  | .paragraph content, h => by
      rw [toldBlock_paragraph]
      exact allStable_toldAll content h (Nat.le_refl 0)
  | .heading _ content, h => by
      rw [toldBlock_heading]
      exact allStable_toldAll content h (Nat.le_refl 0)
  | .quote _ children, h => by
      rw [toldBlock_quote]
      exact ⟨stableBlocks_split (stableBlocks_toldBlocks children h), VideoParagraph.split_split _⟩
  | .list _ _ items, h => by
      rw [toldBlock_list]
      exact stableItems_toldItems items h
  | .verbatim content, h => by
      have hsame : verbatim (verbatim content) = verbatim content := of_decide_eq_true h
      rw [toldBlock_verbatim]
      exact hsame

theorem stableBlocks_toldBlocks : (blocks : List Block) → tidyBlocks blocks = true →
    StableBlocks known (toldBlocks known blocks)
  | [], _ => by
      rw [toldBlocks_nil]
      trivial
  | block :: rest, h => by
      rw [tidyBlocks, Bool.and_eq_true] at h
      rw [toldBlocks_cons]
      exact ⟨stableBlock_toldBlock block h.1, stableBlocks_toldBlocks rest h.2⟩

theorem stableItems_toldItems : (items : List (List Block)) → tidyItems items = true →
    StableItems known (toldItems known items)
  | [], _ => by
      rw [toldItems_nil]
      trivial
  | item :: rest, h => by
      rw [tidyItems, Bool.and_eq_true] at h
      rw [toldItems_cons]
      exact ⟨stableBlocks_toldBlocks item h.1, stableItems_toldItems rest h.2⟩

end

/-- The canonical document of a tidy one is its own canonical document. -/
theorem document_document (scope : Scope) (before : Document) (h : tidyBlocks before = true) :
    (document scope (document scope before).value).value = (document scope before).value := by
  rw [document_value, document_value]
  exact StableBlocks.told _ (stableBlocks_toldBlocks before h)

/-- Emphasis in which a tag is left open: once it has become elements, what follows stands between
tags. -/
example :
    let strong : Inline := .node (.strong '*') [.leaf (.text "a".toList)]
    let before : Document := [.paragraph [.leaf (.html "<span>".toList),
      .node (.emphasis '*') [.leaf (.html "<b>".toList)], .leaf (.html "</span>".toList), strong]]
    let once := toldBlocks (fun _ => false) before
    tidyBlocks before = false ∧
      Printer.document false once = "<span><em><b></em></span>**a**\n\n".toList ∧
      Printer.document false (toldBlocks (fun _ => false) once) =
        "<span><em><b></em></span><strong>a</strong>\n\n".toList := by
  decide +kernel

end Canonmark.Canonical
