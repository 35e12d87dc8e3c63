import Canonmark.Proofs.Canonical.Stable

/-!
# Emphasis that is left

Emphasis between tags becomes elements, and so does the emphasis in it. What a link or
struck-through text holds is judged anew, by the tags in front of it there: if emphasis is left
between tags, then it is in such a node.
-/

namespace Canonmark.Canonical

variable {known : Text → Bool} {between : Bool} {depth : Nat} {kind : Wrapper} {node : Inline}
  {children nodes : List Inline}

mutual

def emphasized : Inline → Bool
  | .leaf _ => false
  | .node kind children => isEmphasis kind || anyEmphasized children

def anyEmphasized : List Inline → Bool
  | [] => false
  | node :: rest => emphasized node || anyEmphasized rest

end

theorem anyEmphasized_eq_any (nodes : List Inline) :
    anyEmphasized nodes = nodes.any emphasized := by
  induction nodes with
  | nil => rfl
  | cons node rest ih => rw [anyEmphasized, ih, List.any_cons]

theorem anyEmphasized_append (first second : List Inline) :
    anyEmphasized (first ++ second) = (anyEmphasized first || anyEmphasized second) := by
  rw [anyEmphasized_eq_any, anyEmphasized_eq_any, anyEmphasized_eq_any, List.any_append]

theorem anyEmphasized_singleton (node : Inline) : anyEmphasized [node] = emphasized node := by
  rw [anyEmphasized, anyEmphasized, Bool.or_false]

mutual

/-- A link or struck-through text in the node holds emphasis. -/
def tucked : Inline → Bool
  | .leaf _ => false
  | .node kind children => !isEmphasis kind && anyEmphasized children || anyTucked children

def anyTucked : List Inline → Bool
  | [] => false
  | node :: rest => tucked node || anyTucked rest

end

theorem anyTucked_eq_any (nodes : List Inline) : anyTucked nodes = nodes.any tucked := by
  induction nodes with
  | nil => rfl
  | cons node rest ih => rw [anyTucked, ih, List.any_cons]

/--
Emphasis is left of a node. `between` tells that the node stands between tags, or emphasis that
holds it does.
-/
inductive Remains : (between : Bool) → Inline → Prop
  | outside {kind : Wrapper} (children : List Inline) :
      isEmphasis kind = true → Remains false (.node kind children)
  | inside {kind : Wrapper} {child : Inline} {children : List Inline} :
      isEmphasis kind = true → child ∈ children → Remains true child →
        Remains true (.node kind children)
  | apart (between : Bool) {kind : Wrapper} {front : List Inline} {child : Inline}
      {behind children : List Inline} :
      isEmphasis kind = false → children = front ++ child :: behind →
        Remains (0 < depthBehind 0 (front ++ [child])) child → Remains between (.node kind children)

def RemainsAmong (between : Bool) (depth : Nat) (nodes : List Inline) : Prop :=
  ∃ front child behind, nodes = front ++ child :: behind ∧
    Remains (between || 0 < depthBehind depth (front ++ [child])) child

theorem not_remains_leaf (content : Leaf) : ¬Remains between (.leaf content) := nofun

theorem not_remainsAmong_nil : ¬RemainsAmong between depth [] := by
  rintro ⟨front, child, behind, hnone, -⟩
  cases front <;> cases hnone

theorem remainsAmong_cons {rest : List Inline} :
    RemainsAmong between depth (node :: rest) ↔
      Remains (between || 0 < depthAfter depth node) node ∨
        RemainsAmong between (depthAfter depth node) rest := by
  constructor
  · rintro ⟨front, child, behind, hwhole, hremains⟩
    cases front with
    | nil =>
        cases hwhole
        exact .inl hremains
    | cons first front =>
        cases hwhole
        exact .inr ⟨front, child, behind, rfl, hremains⟩
  · rintro (hremains | ⟨front, child, behind, rfl, hremains⟩)
    · exact ⟨[], node, rest, rfl, hremains⟩
    · exact ⟨node :: front, child, behind, rfl, hremains⟩

theorem remainsAmong_true :
    RemainsAmong true depth nodes ↔ ∃ child ∈ nodes, Remains true child := by
  constructor
  · rintro ⟨front, child, behind, rfl, hremains⟩
    exact ⟨child, by simp, hremains⟩
  · rintro ⟨child, hmem, hremains⟩
    obtain ⟨front, behind, rfl⟩ := List.append_of_mem hmem
    exact ⟨front, child, behind, rfl, hremains⟩

theorem remains_kept (h : isEmphasis kind = false) :
    Remains between (.node kind children) ↔ RemainsAmong false 0 children := by
  constructor
  · intro hremains
    cases hremains with
    | outside _ hemphasis => exact absurd (h.symm.trans hemphasis) (by decide)
    | inside hemphasis => exact absurd (h.symm.trans hemphasis) (by decide)
    | apart _ _ hwhole hremains => exact ⟨_, _, _, hwhole, hremains⟩
  · rintro ⟨front, child, behind, hwhole, hremains⟩
    exact .apart between h hwhole hremains

theorem remains_emphasis (h : isEmphasis kind = true) :
    Remains true (.node kind children) ↔ RemainsAmong true 0 children := by
  rw [remainsAmong_true]
  constructor
  · intro hremains
    cases hremains with
    | inside _ hmem hremains => exact ⟨_, hmem, hremains⟩
    | apart _ hkept => exact absurd (hkept.symm.trans h) (by decide)
  · rintro ⟨child, hmem, hremains⟩
    exact .inside h hmem hremains

mutual

theorem emphasized_told : (node : Inline) →
    (emphasized (told known node) = true ↔ Remains false node)
  | .leaf content => by
      rw [told_leaf]
      exact iff_of_false Bool.false_ne_true (not_remains_leaf content)
  | .node kind children => by
      rw [told_node, emphasized, isEmphasis_wrapper, Bool.or_eq_true,
        anyEmphasized_toldAll 0 children]
      cases hemphasis : isEmphasis kind with
      | true => exact iff_of_true (.inl rfl) (.outside children hemphasis)
      | false => simp [remains_kept hemphasis]

theorem anyEmphasized_elements_told : (node : Inline) →
    (anyEmphasized (elements (told known node)) = true ↔ Remains true node)
  | .leaf content => by
      rw [told_leaf]
      exact iff_of_false Bool.false_ne_true (not_remains_leaf content)
  | .node kind children => by
      have hsame := isEmphasis_wrapper kind
      rw [told_node]
      cases hemphasis : isEmphasis kind with
      | true =>
          obtain ⟨opening, closing, htags⟩ := exists_tags (hsame.trans hemphasis)
          rw [remains_emphasis hemphasis, ← anyEmphasized_elementsOf_toldAll 0 children,
            htags.elements,
            anyEmphasized_append, anyEmphasized, anyEmphasized_singleton, emphasized, emphasized,
            Bool.false_or, Bool.or_false]
      | false =>
          rw [remains_kept hemphasis, ← anyEmphasized_toldAll 0 children,
            elements_kept (hsame.trans hemphasis), anyEmphasized_singleton, emphasized, hsame,
            hemphasis,
            Bool.false_or]

theorem anyEmphasized_toldAll (depth : Nat) : (nodes : List Inline) →
    (anyEmphasized (toldAll known depth nodes) = true ↔ RemainsAmong false depth nodes)
  | [] => by
      rw [toldAll_nil]
      exact iff_of_false Bool.false_ne_true not_remainsAmong_nil
  | node :: rest => by
      rw [toldAll_cons, anyEmphasized_append, Bool.or_eq_true, remainsAmong_cons,
        anyEmphasized_toldAll _ rest]
      refine or_congr_left ?_
      by_cases houtside : depthAfter depth node = 0
      · rw [if_pos houtside, anyEmphasized_singleton, emphasized_told node, houtside]
        rfl
      · rw [if_neg houtside, anyEmphasized_elements_told node]
        simp [Nat.pos_of_ne_zero houtside]

theorem anyEmphasized_elementsOf_toldAll (depth : Nat) : (nodes : List Inline) →
    (anyEmphasized (elementsOf (toldAll known depth nodes)) = true ↔ RemainsAmong true depth nodes)
  | [] => by
      rw [toldAll_nil]
      exact iff_of_false Bool.false_ne_true not_remainsAmong_nil
  | node :: rest => by
      rw [toldAll_cons, elementsOf_append, elementsOf_ite, anyEmphasized_append, Bool.or_eq_true,
        remainsAmong_cons, anyEmphasized_elements_told node,
        anyEmphasized_elementsOf_toldAll _ rest, Bool.true_or]

end

theorem Remains.emphasized (h : Remains between node) : emphasized node = true := by
  induction h with
  | outside children hemphasis => rw [Canonical.emphasized, hemphasis, Bool.true_or]
  | inside hemphasis => rw [Canonical.emphasized, hemphasis, Bool.true_or]
  | apart _ hkept hwhole _ ih =>
      rw [Canonical.emphasized, anyEmphasized_eq_any, hwhole, Bool.or_eq_true, List.any_eq_true]
      exact .inr ⟨_, by simp, ih⟩

theorem Remains.tucked (h : Remains between node) (hbetween : between = true) :
    tucked node = true := by
  induction h with
  | outside => cases hbetween
  | inside _ hmem _ ih =>
      rw [Canonical.tucked, Bool.or_eq_true, anyTucked_eq_any, List.any_eq_true]
      exact .inr ⟨_, hmem, ih rfl⟩
  | apart _ hkept hwhole hremains =>
      rw [Canonical.tucked, hkept, Bool.not_false, Bool.true_and, Bool.or_eq_true,
        anyEmphasized_eq_any, hwhole, List.any_eq_true]
      exact .inl ⟨_, by simp, hremains.emphasized⟩

theorem toldAll_between (known : Text → Bool) {front : List Inline}
    (hopen : 0 < depthBehind depth front) (node : Inline) (behind : List Inline) :
    toldAll known depth (front ++ node :: behind) =
      toldAll known depth front ++ elements (told known node) ++
        toldAll known (depthBehind depth (front ++ [node])) behind := by
  have hfirst : (if depthAfter (depthBehind depth front) node = 0 then [told known node]
      else elements (told known node)) = elements (told known node) := by
    cases node with
    | leaf content => rw [told_leaf, elements, ite_self]
    | node kind children => exact if_neg (Nat.ne_of_gt hopen)
  rw [toldAll_append, toldAll_cons, hfirst, depthBehind_append, List.append_assoc]
  rfl

mutual

theorem not_isEmphasis_elements {kind : Wrapper} {children : List Inline} : (node : Inline) →
    .node kind children ∈ elements node → isEmphasis kind = false
  | .leaf _, hmem => nomatch List.mem_singleton.mp hmem
  | .node outer inner, hmem => by
      cases hemphasis : isEmphasis outer with
      | false =>
          rw [elements_kept hemphasis] at hmem
          cases List.mem_singleton.mp hmem
          exact hemphasis
      | true =>
          obtain ⟨opening, closing, htags⟩ := exists_tags hemphasis
          rw [htags.elements, List.mem_append, List.mem_cons] at hmem
          rcases hmem with (hfirst | hwithin) | hlast
          · cases hfirst
          · exact not_isEmphasis_elementsOf inner hwithin
          · cases List.mem_singleton.mp hlast

theorem not_isEmphasis_elementsOf {kind : Wrapper} {children : List Inline} :
    (nodes : List Inline) → .node kind children ∈ elementsOf nodes → isEmphasis kind = false
  | [], hmem => nomatch hmem
  | node :: rest, hmem => by
      rw [elementsOf] at hmem
      rcases List.mem_append.mp hmem with hfirst | hlater
      · exact not_isEmphasis_elements node hfirst
      · exact not_isEmphasis_elementsOf rest hlater

end

/--
What is made of a node between tags has no emphasis outermost. It has some at all just where
emphasis is left of the node, and then in a link or in struck-through text.
-/
theorem told_between (known : Text → Bool) {front : List Inline} (hopen : 0 < depthBehind 0 front)
    (node : Inline) (behind : List Inline) :
    ∃ made, toldAll known 0 (front ++ node :: behind) =
        toldAll known 0 front ++ made ++ toldAll known (depthBehind 0 (front ++ [node])) behind ∧
      (∀ kind children, .node kind children ∈ made → isEmphasis kind = false) ∧
      (anyEmphasized made = true ↔ Remains true node) ∧
      (Remains true node → tucked node = true) :=
  ⟨elements (told known node), toldAll_between known hopen node behind,
    fun _ _ hmem => not_isEmphasis_elements (told known node) hmem,
    anyEmphasized_elements_told node, fun hremains => hremains.tucked rfl⟩

/-- Emphasis in a link between tags is left, unless a tag stands in front of it in the link. -/
example :
    let strong : Inline := .node (.strong '*') [.leaf (.text "a".toList)]
    let link (content : List Inline) : Inline := .node (.link false "b".toList none) content
    let tag : Inline := .leaf (.html "<i>".toList)
    Printer.inlines (toldAll (fun _ => false) 0 [tag, strong, link [strong], link [tag, strong]]) =
      "<i><strong>a</strong>[**a**](b)[<i><strong>a</strong>](b)".toList := by
  decide +kernel

end Canonmark.Canonical
