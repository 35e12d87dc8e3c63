import Canonmark.Proofs.Canonical.Frame

/-!
# Asking for references

Making a document canonical asks for the identifier of each reference once, in reading order, and
for nothing else. What it makes of the document depends on the answers alone, not on who gives
them or on what else asking does.
-/

namespace Canonmark.Canonical

abbrev Asking (α : Type) : Type 1 :=
  (m : Type → Type) → [Monad m] → (ask : Text → m Bool) → m α

/-- A program that asks for these identifiers, each of them once and in this order, and makes of
the answers what holds for them. -/
def Asks {α : Type} (asked : List Text) (holds : List Bool → α → Prop) (program : Asking α) :
    Prop :=
  ∃ make : List Bool → α,
    (∀ known : List Bool, known.length = asked.length → holds known (make known)) ∧
      ∀ (m : Type → Type) [Monad m] [LawfulMonad m] (ask : Text → m Bool),
        program m ask = make <$> asked.mapM ask

variable {α β γ : Type} {asked asked' : List Text}
variable {holds : List Bool → α → Prop} {holds' : List Bool → β → Prop}
variable {result : List Bool → γ → Prop}

theorem map_mapM_append {m : Type → Type} [Monad m] [LawfulMonad m] (ask : Text → m Bool)
    (first second : List Text) (make : List Bool → List Bool → α) :
    (fun known => make (known.take first.length) (known.drop first.length)) <$>
        (first ++ second).mapM ask =
      (do
        let known ← first.mapM ask
        let more ← second.mapM ask
        return make known more) := by
  induction first generalizing make with
  | nil => simp
  | cons identifier first ih =>
      simp only [List.cons_append, List.mapM_cons, map_bind, bind_assoc, pure_bind]
      refine bind_congr fun known => ?_
      have hstep := ih fun before behind => make (known :: before) behind
      rw [map_eq_pure_bind] at hstep
      simp only [map_pure, List.length_cons, List.take_succ_cons, List.drop_succ_cons]
      exact hstep

namespace Asks

theorem of_pure {value : α} (h : holds [] value) : Asks [] holds fun _ _ _ => pure value := by
  refine ⟨fun _ => value, fun known hnone => ?_, fun m _ _ ask => ?_⟩
  · rwa [List.eq_nil_of_length_eq_zero hnone]
  · simp

theorem one (identifier : Text) :
    Asks [identifier] (fun known answer => known = [answer]) fun _ _ ask => ask identifier := by
  refine ⟨fun known => known.headD false, fun known hsingle => ?_, fun m _ _ ask => ?_⟩
  · obtain ⟨answer, rfl⟩ := List.length_eq_one_iff.mp hsingle
    rfl
  · simp

theorem map {program : Asking α} (h : Asks asked holds program) (f : α → γ)
    (hmade : ∀ known value, holds known value → result known (f value)) :
    Asks asked result fun m _ ask => do
      let value ← program m ask
      return f value := by
  obtain ⟨make, hmakes, hasks⟩ := h
  refine ⟨f ∘ make, fun known hlength => hmade _ _ (hmakes known hlength), fun m _ _ ask => ?_⟩
  simp [hasks m ask, Function.comp_def]

theorem both {program : Asking α} {other : Asking β} (h : Asks asked holds program)
    (h' : Asks asked' holds' other) (f : α → β → γ)
    (hmade : ∀ known more value value', holds known value → holds' more value' →
      result (known ++ more) (f value value')) :
    Asks (asked ++ asked') result fun m _ ask => do
      let value ← program m ask
      let value' ← other m ask
      return f value value' := by
  obtain ⟨make, hmakes, hasks⟩ := h
  obtain ⟨make', hmakes', hasks'⟩ := h'
  refine ⟨fun known => f (make (known.take asked.length)) (make' (known.drop asked.length)),
    fun known hlength => ?_, fun m _ _ ask => ?_⟩
  · rw [List.length_append] at hlength
    have hparts := hmade _ _ _ _
      (hmakes (known.take asked.length) (by rw [List.length_take]; omega))
      (hmakes' (known.drop asked.length) (by rw [List.length_drop]; omega))
    rwa [List.take_append_drop] at hparts
  · rw [map_mapM_append ask asked asked' fun known more => f (make known) (make' more)]
    simp [hasks m ask, hasks' m ask]

end Asks

/-- References keep their identifiers and are told apart by these answers. -/
structure Answered (before after : List Leaf) (known : List Bool) : Prop where
  identifiers : after.filterMap Leaf.identifier? = before.filterMap Leaf.identifier?
  resolutions : after.filterMap Leaf.resolved? = known

namespace Answered

theorem nil : Answered [] [] [] := ⟨rfl, rfl⟩

theorem append {before after before' after' : List Leaf} {known known' : List Bool}
    (h : Answered before after known) (h' : Answered before' after' known') :
    Answered (before ++ before') (after ++ after') (known ++ known') where
  identifiers := by rw [List.filterMap_append, List.filterMap_append, h.identifiers, h'.identifiers]
  resolutions := by rw [List.filterMap_append, h.resolutions, h'.resolutions]

theorem losesBreaks {before between after : List Leaf} {known : List Bool}
    (h : Answered before between known) (h' : VideoParagraph.LosesBreaks between after) :
    Answered before after known where
  identifiers := (h'.filterMap_eq rfl).trans h.identifiers
  resolutions := (h'.filterMap_eq rfl).trans h.resolutions

end Answered

mutual

theorem filterMap_elements (read : Leaf → Option α) (hhtml : ∀ text, read (.html text) = none) :
    (node : Inline) →
      (Inline.leavesOf (elements node)).filterMap read = node.leaves.filterMap read
  | .leaf _ => rfl
  | .node kind children => by
      rcases elements_node kind children with hkept | ⟨opening, closing, htags, hmarked⟩
      · rw [hkept, Inline.leavesOf_singleton]
      · have hinside := filterMap_elementsOf read hhtml children
        rw [hmarked]
        cases htags <;>
          simp [Inline.leavesOf, Inline.leaves, List.filterMap_append, hhtml, hinside]

theorem filterMap_elementsOf (read : Leaf → Option α) (hhtml : ∀ text, read (.html text) = none) :
    (nodes : List Inline) →
      (Inline.leavesOf (elementsOf nodes)).filterMap read = (Inline.leavesOf nodes).filterMap read
  | [] => rfl
  | node :: rest => by
      rw [elementsOf, Inline.leavesOf_append, List.filterMap_append, filterMap_elements read hhtml,
        filterMap_elementsOf read hhtml, Inline.leavesOf, List.filterMap_append]

end

structure InlinesOutcome (before : List Inline) (known : List Bool) (after : List Inline) :
    Prop where
  becomes : InlinesBecome before after
  answered : Answered (Inline.leavesOf before) (Inline.leavesOf after) known

theorem InlinesOutcome.elements {before : List Inline} {known : List Bool} {node : Inline}
    (h : InlinesOutcome before known [node]) : InlinesOutcome before known (elements node) where
  becomes := by
    have hmarked := h.becomes.elementsOf
    rwa [elementsOf, elementsOf, List.append_nil] at hmarked
  answered := by
    have hanswered := h.answered
    rw [Inline.leavesOf_singleton] at hanswered
    exact ⟨(filterMap_elements _ (fun _ => rfl) node).trans hanswered.identifiers,
      (filterMap_elements _ (fun _ => rfl) node).trans hanswered.resolutions⟩

theorem asks_leaf (content : Leaf) :
    Asks content.identifier?.toList
      (fun known after => LeafBecomes content after ∧ Answered [content] [after] known)
      fun _ _ ask => leaf ask content := by
  cases content with
  | xref identifier resolved =>
      refine (Asks.one identifier).map (Leaf.xref identifier) fun known answer hsame => ?_
      subst hsame
      exact ⟨.xref identifier resolved answer, rfl, rfl⟩
  | mail scheme address =>
      refine .of_pure ⟨?_, rfl, rfl⟩
      split
      · exact .mail scheme address
      · exact .same _
  | _ => exact .of_pure ⟨.same _, rfl, rfl⟩

theorem wrapperBecomes_wrapper (kind : Wrapper) : WrapperBecomes kind (wrapper kind) := by
  cases kind <;> constructor

mutual

theorem asks_inline : (node : Inline) →
    Asks (node.leaves.filterMap Leaf.identifier?)
      (fun known after => InlinesOutcome [node] known [after]) fun _ _ ask => inline ask node
  | .leaf content => by
      have hasked : [content].filterMap Leaf.identifier? = content.identifier?.toList := by
        cases content <;> rfl
      rw [Inline.leaves, hasked]
      simp only [inline]
      exact (asks_leaf content).map Inline.leaf fun known after h => ⟨.leaf h.1 .nil, h.2⟩
  | .node kind children => by
      simp only [inline]
      refine (asks_inlines 0 children).map (Inline.node (wrapper kind)) fun known after h => ?_
      refine ⟨.node (wrapperBecomes_wrapper kind) h.becomes .nil, ?_⟩
      rw [Inline.leavesOf_singleton, Inline.leavesOf_singleton]
      exact h.answered

theorem asks_inlines (depth : Nat) : (nodes : List Inline) →
    Asks ((Inline.leavesOf nodes).filterMap Leaf.identifier?) (InlinesOutcome nodes)
      fun _ _ ask => inlines ask depth nodes
  | [] => by
      simp only [inlines]
      exact .of_pure ⟨.nil, .nil⟩
  | node :: rest => by
      rw [Inline.leavesOf, List.filterMap_append]
      simp only [inlines]
      refine (asks_inline node).both (asks_inlines (depthAfter depth node) rest)
        (fun first others =>
          (if depthAfter depth node = 0 then [first] else elements first) ++ others)
        fun known more first others h h' => ?_
      have hfront : InlinesOutcome [node] known
          (if depthAfter depth node = 0 then [first] else elements first) := by
        split
        · exact h
        · exact h.elements
      refine ⟨hfront.becomes.append h'.becomes, ?_⟩
      rw [← List.singleton_append, Inline.leavesOf_append, Inline.leavesOf_append]
      exact hfront.answered.append h'.answered

end

end Canonmark.Canonical
