import Canonmark.Proofs.Reference.Catalog
import Mathlib.Data.List.Find

/-!
# Merged catalogs

The targets of a catalog come in some order when it is merged into another one, and the order is
not known. Identifiers that are registered are found alike in every order, and so is whether an
identifier is found at all; which of several spellings answers for another one may differ, but
only between spellings that the second catalog holds.
-/

namespace Canonmark.Catalog

variable {lower : Text → Text} {catalog first second : Catalog} {definitions : List Target}

theorem merge_eq (first second : Catalog) :
    first.merge second = first.absorbBy Unicode.lowercase second.targets := rfl

/-- Made by registrations and merges, the targets of a merged catalog coming in any order. -/
inductive Made (lower : Text → Text) : Catalog → Prop where
  | empty : Made lower empty
  | insert {catalog : Catalog} (target : Target) :
      Made lower catalog → Made lower (catalog.insertBy lower target)
  | merge {first second : Catalog} {order : List Target} :
      Made lower first → Made lower second → order.Perm second.targets →
        Made lower (first.absorbBy lower order)

theorem made_ofListBy (lower : Text → Text) (definitions : List Target) :
    Made lower (ofListBy lower definitions) := by
  induction definitions using List.reverseRecOn with
  | nil => exact .empty
  | append_singleton definitions target ih =>
      rw [ofListBy, List.foldl_concat]
      exact ih.insert target

theorem insertBy_targets (lower : Text → Text) (catalog : Catalog) (target : Target) :
    catalog.insertBy lower target = catalog ∨
      (catalog.insertBy lower target).targets = catalog.targets ++ [target] := by
  rw [insertBy, registerBy]
  split
  · exact .inl rfl
  · exact .inr rfl

def Settled (lower : Text → Text) (catalog : Catalog) : Prop :=
  Refines lower catalog.targets catalog

theorem Settled.insert (h : Settled lower catalog) (target : Target) :
    Settled lower (catalog.insertBy lower target) := by
  rcases insertBy_targets lower catalog target with hsame | hadded
  · rw [hsame]
    exact h
  · rw [Settled, hadded]
    exact Refines.insert h target

theorem Settled.absorb (h : Settled lower catalog) (targets : List Target) :
    Settled lower (catalog.absorbBy lower targets) := by
  induction targets generalizing catalog with
  | nil => exact h
  | cons target rest ih => exact ih (h.insert target)

theorem Made.settled (h : Made lower catalog) : Settled lower catalog := by
  induction h with
  | empty => exact Refines.empty
  | insert target _ ih => exact ih.insert target
  | merge _ _ _ ih _ => exact ih.absorb _

theorem Refines.absorb (h : Refines lower definitions catalog) (targets : List Target) :
    Refines lower (definitions ++ targets) (catalog.absorbBy lower targets) := by
  induction targets generalizing definitions catalog with
  | nil =>
      rw [List.append_nil]
      exact h
  | cons target rest ih =>
      have hlater := ih (h.insert target)
      rwa [List.append_assoc] at hlater

/-- No two identifiers of the catalog have one spelling in lower case. -/
def OneSpelling (lower : Text → Text) (catalog : Catalog) : Prop :=
  ∀ target ∈ catalog.targets, ∀ other ∈ catalog.targets,
    lower target.uid = lower other.uid → target.uid = other.uid

def uids (catalog : Catalog) : Finset Text := (catalog.targets.map (·.uid)).toFinset

theorem Settled.unique (h : Settled lower catalog) {target other : Target}
    (hmem : target ∈ catalog.targets) (hmem' : other ∈ catalog.targets)
    (hsame : target.uid = other.uid) : target = other :=
  List.inj_on_of_nodup_map h.distinct hmem hmem' hsame

/-- What at most one identifier has is found in every order. -/
theorem Settled.find?_order (h : Settled lower catalog) {order : List Target}
    (hperm : order.Perm catalog.targets) {p : Target → Bool}
    (hsingle : ∀ target ∈ catalog.targets, ∀ other ∈ catalog.targets,
      p target = true → p other = true → target.uid = other.uid) :
    order.find? p = catalog.targets.find? p := by
  refine List.find?_eq_find?_of_perm hperm fun target hholds other hholds' => ?_
  have hmem : target ∈ catalog.targets := hperm.subset hholds.1
  have hmem' : other ∈ catalog.targets := hperm.subset hholds'.1
  exact h.unique hmem hmem' (hsingle target hmem other hmem' hholds.2 hholds'.2)

theorem Settled.find?_uid (h : Settled lower catalog) {order : List Target}
    (hperm : order.Perm catalog.targets) (uid : Text) :
    order.find? (·.uid = uid) = catalog.find? uid := by
  refine h.find?_order hperm fun target _ other _ hsame hsame' => ?_
  exact (of_decide_eq_true hsame).trans (of_decide_eq_true hsame').symm

/-- A spelling is found in every order, if it is that of one identifier. -/
theorem Settled.find?_spelling (h : Settled lower catalog) (hsingle : OneSpelling lower catalog)
    {order : List Target} (hperm : order.Perm catalog.targets) (spelling : Text) :
    order.find? (lower ·.uid = spelling) = catalog.targets.find? (lower ·.uid = spelling) := by
  refine h.find?_order hperm fun target hmem other hmem' hsame hsame' => ?_
  exact hsingle target hmem other hmem' ((of_decide_eq_true hsame).trans
    (of_decide_eq_true hsame').symm)

theorem getBy?_of_find? {uid : Text} (h : (catalog.find? uid).isSome = true) :
    catalog.getBy? lower uid = catalog.find? uid := by
  obtain ⟨target, hfound⟩ := Option.isSome_iff_exists.mp h
  rw [getBy?, hfound]

theorem Refines.isSome_getBy? (h : Refines lower definitions catalog) (uid : Text) :
    (catalog.getBy? lower uid).isSome = true ↔
      ∃ target ∈ definitions, lower target.uid = lower uid := by
  rw [h.get, Option.isSome_or, Bool.or_eq_true, List.find?_isSome, List.find?_isSome]
  simp only [decide_eq_true_eq]
  constructor
  · rintro (⟨target, hmem, hsame⟩ | hfound)
    · exact ⟨target, hmem, congrArg lower hsame⟩
    · exact hfound
  · exact .inr

section Merged

variable {order : List Target}

theorem Settled.find?_absorb (h : Settled lower first) (h' : Settled lower second)
    (hperm : order.Perm second.targets) (uid : Text) :
    (first.absorbBy lower order).find? uid = (first.find? uid).or (second.find? uid) := by
  rw [(Refines.absorb h order).find, List.find?_append, h'.find?_uid hperm]
  rfl

theorem Settled.isSome_getBy?_absorb (h : Settled lower first) (h' : Settled lower second)
    (hperm : order.Perm second.targets) (uid : Text) :
    ((first.absorbBy lower order).getBy? lower uid).isSome = true ↔
      (first.getBy? lower uid).isSome = true ∨ (second.getBy? lower uid).isSome = true := by
  rw [(Refines.absorb h order).isSome_getBy?, Refines.isSome_getBy? h, Refines.isSome_getBy? h']
  simp only [List.mem_append, hperm.mem_iff, or_and_right, exists_or]

theorem Settled.size_absorb (h : Settled lower first) (hperm : order.Perm second.targets) :
    (first.absorbBy lower order).size = (first.uids ∪ second.uids).card := by
  have hsame : (order.map (·.uid)).toFinset = second.uids :=
    List.toFinset_eq_of_perm _ _ (hperm.map _)
  rw [(Refines.absorb h order).size, List.map_append, List.toFinset_append, hsame]
  rfl

theorem Settled.getBy?_absorb (h : Settled lower first) (h' : Settled lower second)
    (hsingle : OneSpelling lower second) (hperm : order.Perm second.targets) (uid : Text) :
    (first.absorbBy lower order).getBy? lower uid =
      (first.absorbBy lower second.targets).getBy? lower uid := by
  simp only [(Refines.absorb h _).get, List.find?_append, h'.find?_uid hperm,
    h'.find?_spelling hsingle hperm]
  rfl

end Merged

/--
After a merge, in whatever order the targets of the second catalog come, identifiers of the first
one keep their targets, those of the second one alone have theirs, the size counts the identifiers
of both, and an identifier is found when it was found in one of them; so none is lost. If no two
identifiers of the second one have one spelling, every answer is the same in all orders.
-/
theorem absorbBy_answers (hmade : Made lower first) (hmade' : Made lower second) :
    (∀ order : List Target, order.Perm second.targets →
      let merged := first.absorbBy lower order
      (∀ uid, first.contains uid = true →
        merged.find? uid = first.find? uid ∧ merged.getBy? lower uid = first.find? uid) ∧
      (∀ uid, first.contains uid = false → second.contains uid = true →
        merged.find? uid = second.find? uid ∧ merged.getBy? lower uid = second.find? uid) ∧
      merged.size = (first.uids ∪ second.uids).card ∧
      (∀ uid, (merged.getBy? lower uid).isSome = true ↔
        (first.getBy? lower uid).isSome = true ∨ (second.getBy? lower uid).isSome = true) ∧
      ∀ uid, (first.getBy? lower uid).isSome = true →
        (merged.getBy? lower uid).isSome = true) ∧
    (OneSpelling lower second → ∀ order order' : List Target, order.Perm second.targets →
      order'.Perm second.targets → ∀ uid,
        (first.absorbBy lower order).getBy? lower uid =
          (first.absorbBy lower order').getBy? lower uid) := by
  have h := hmade.settled
  have h' := hmade'.settled
  refine ⟨fun order hperm => ?_, fun hsingle order order' hperm hperm' uid => ?_⟩
  · intro merged
    have hfound (uid : Text) : merged.find? uid = (first.find? uid).or (second.find? uid) :=
      h.find?_absorb h' hperm uid
    have hsome_iff (uid : Text) := h.isSome_getBy?_absorb h' hperm uid
    refine ⟨fun uid hknown => ?_, fun uid hnew hknown => ?_, h.size_absorb hperm, hsome_iff,
      fun uid hwas => (hsome_iff uid).mpr (.inl hwas)⟩
    · have hsame : merged.find? uid = first.find? uid := by
        rw [hfound, Option.or_of_isSome hknown]
      exact ⟨hsame, (getBy?_of_find? (hsame ▸ hknown)).trans hsame⟩
    · have hnone : first.find? uid = none := by
        rw [contains] at hnew
        simpa using hnew
      have hsame : merged.find? uid = second.find? uid := by rw [hfound, hnone, Option.none_or]
      exact ⟨hsame, (getBy?_of_find? (hsame ▸ hknown)).trans hsame⟩
  · exact (h.getBy?_absorb h' hsingle hperm uid).trans (h.getBy?_absorb h' hsingle hperm' uid).symm

/-- The second catalog has an identifier of the first one in another spelling. -/
theorem absorbBy_answers_reversed :
    let first := ofList [{ uid := "a.B".toList }]
    let second := ofList [{ uid := "A.b".toList }, { uid := "C".toList }]
    let merged := first.absorbBy Unicode.lowercase second.targets.reverse
    Made Unicode.lowercase first ∧ Made Unicode.lowercase second ∧
      second.targets.reverse.Perm second.targets ∧ OneSpelling Unicode.lowercase second ∧
      merged.find? "A.b".toList = second.find? "A.b".toList ∧
      merged.size = (first.uids ∪ second.uids).card ∧
      (∀ uid, (merged.getBy? Unicode.lowercase uid).isSome = true ↔
        (first.getBy? Unicode.lowercase uid).isSome = true ∨
          (second.getBy? Unicode.lowercase uid).isSome = true) ∧
      ∀ uid, merged.getBy? Unicode.lowercase uid =
        (first.absorbBy Unicode.lowercase second.targets).getBy? Unicode.lowercase uid := by
  intro first second merged
  have hmade : Made Unicode.lowercase first := made_ofListBy _ _
  have hmade' : Made Unicode.lowercase second := made_ofListBy _ _
  have hperm : second.targets.reverse.Perm second.targets := List.reverse_perm _
  have hsingle : OneSpelling Unicode.lowercase second := by unfold OneSpelling; decide
  obtain ⟨hevery, halike⟩ := absorbBy_answers hmade hmade'
  obtain ⟨-, hothers, hsize, hsome_iff, -⟩ := hevery _ hperm
  exact ⟨hmade, hmade', hperm, hsingle, (hothers "A.b".toList (by decide) (by decide)).1, hsize,
    hsome_iff, halike hsingle _ _ hperm (.refl _)⟩

end Canonmark.Catalog
