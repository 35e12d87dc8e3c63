import Canonmark.Reference.Catalog
import Mathlib.Data.Finset.Card

/-!
# What catalogs answer

A catalog answers as the list of all targets that were ever registered in it: the first target of
an identifier counts, and where there is none, the first one of its spelling in lower case. The
two tables of a catalog stay in step whatever lower case is.
-/

namespace Canonmark.Catalog

variable {lower : Text → Text} {catalog : Catalog} {definitions : List Target}

theorem lookup_note (spelling uid key : Text) (spellings : List (Text × Text)) :
    (note spelling uid spellings).lookup key =
      (spellings.lookup key).or (if key = spelling then some uid else none) := by
  rw [note]
  split
  · next hnoted =>
      by_cases hsame : key = spelling
      · subst hsame
        obtain ⟨first, hfound⟩ := Option.isSome_iff_exists.mp hnoted
        rw [hfound, Option.some_or]
      · rw [if_neg hsame, Option.or_none]
  · rw [List.lookup_append]
    congr 1
    by_cases hsame : key = spelling
    · simp [hsame]
    · simp [hsame, List.lookup_cons, beq_false_of_ne hsame]

theorem find?_concat (p : Target → Bool) (definitions : List Target) (target : Target) :
    (definitions ++ [target]).find? p =
      (definitions.find? p).or (if p target then some target else none) := by
  rw [List.find?_append, List.find?_singleton]

theorem contains_eq (catalog : Catalog) (uid : Text) :
    catalog.contains uid = catalog.targets.any (·.uid = uid) := by
  rw [contains, find?, Bool.eq_iff_iff, List.find?_isSome, List.any_eq_true]

/-- The tables hold the first definition of each identifier and of each spelling. -/
structure Refines (lower : Text → Text) (definitions : List Target) (catalog : Catalog) :
    Prop where
  find : ∀ uid, catalog.find? uid = definitions.find? (·.uid = uid)
  spelled : ∀ spelling, catalog.spellings.lookup spelling =
    (definitions.find? (lower ·.uid = spelling)).map (·.uid)
  distinct : (catalog.targets.map (·.uid)).Nodup

/-- The second table leads to registered identifiers, and each of them is found by its
spelling. -/
structure Coherent (lower : Text → Text) (catalog : Catalog) : Prop where
  points : ∀ spelling uid, catalog.spellings.lookup spelling = some uid →
    catalog.contains uid = true ∧ lower uid = spelling
  covers : ∀ target ∈ catalog.targets, (catalog.spellings.lookup (lower target.uid)).isSome = true

namespace Refines

theorem empty : Refines lower [] empty where
  find _ := rfl
  spelled _ := rfl
  distinct := List.nodup_nil

theorem contains (h : Refines lower definitions catalog) (uid : Text) :
    catalog.contains uid = definitions.any (·.uid = uid) := by
  rw [Catalog.contains, h.find, Bool.eq_iff_iff, List.find?_isSome, List.any_eq_true]

/-- A repeated definition adds nothing to what its identifier or its spelling finds. -/
theorem find?_repeated {p : Target → Bool} {target : Target}
    (hknown : definitions.any (·.uid = target.uid) = true)
    (halike : ∀ other : Target, other.uid = target.uid → p other = p target) :
    (definitions ++ [target]).find? p = definitions.find? p := by
  rw [find?_concat]
  split
  · next hholds =>
      obtain ⟨other, hmem, hsame⟩ := List.any_eq_true.mp hknown
      have hfound : (definitions.find? p).isSome = true :=
        List.find?_isSome.mpr ⟨other, hmem, (halike other (of_decide_eq_true hsame)).trans hholds⟩
      obtain ⟨first, heq⟩ := Option.isSome_iff_exists.mp hfound
      rw [heq, Option.some_or]
  · rw [Option.or_none]

theorem insert (h : Refines lower definitions catalog) (target : Target) :
    Refines lower (definitions ++ [target]) (catalog.insertBy lower target) := by
  rw [insertBy, registerBy]
  split
  · next hknown =>
      rw [h.contains] at hknown
      refine ⟨fun uid => ?_, fun spelling => ?_, h.distinct⟩
      · rw [find?_repeated hknown fun other hsame => by rw [hsame]]
        exact h.find uid
      · rw [find?_repeated hknown fun other hsame => by rw [hsame]]
        exact h.spelled spelling
  · next hnew =>
      refine ⟨fun uid => ?_, fun spelling => ?_, ?_⟩
      · rw [find?_concat, ← h.find]
        exact find?_concat _ _ _
      · rw [find?_concat, lookup_note, h.spelled]
        cases definitions.find? (lower ·.uid = spelling) with
        | some first => rfl
        | none =>
            by_cases hsame : spelling = lower target.uid
            · simp [hsame]
            · simp [hsame, Ne.symm hsame]
      · rw [contains_eq, Bool.not_eq_true, List.any_eq_false] at hnew
        rw [List.map_append, List.nodup_append]
        refine ⟨h.distinct, List.nodup_singleton _, fun uid hmem other hsingle => ?_⟩
        obtain ⟨first, hregistered, rfl⟩ := List.mem_map.mp hmem
        obtain rfl := List.mem_singleton.mp hsingle
        simpa using hnew first hregistered

theorem ofListBy (lower : Text → Text) (definitions : List Target) :
    Refines lower definitions (ofListBy lower definitions) := by
  induction definitions using List.reverseRecOn with
  | nil => exact .empty
  | append_singleton definitions target ih =>
      rw [Catalog.ofListBy, List.foldl_concat]
      exact ih.insert target

theorem size (h : Refines lower definitions catalog) :
    catalog.size = (definitions.map (·.uid)).toFinset.card := by
  have hsame : (definitions.map (·.uid)).toFinset = (catalog.targets.map (·.uid)).toFinset := by
    ext uid
    have hregistered := h.contains uid
    rw [contains_eq, Bool.eq_iff_iff, List.any_eq_true, List.any_eq_true] at hregistered
    simpa using hregistered.symm
  rw [hsame, List.toFinset_card_of_nodup h.distinct, List.length_map, Catalog.size]

theorem find?_first {spelling : Text} {first : Target}
    (h : definitions.find? (lower ·.uid = spelling) = some first) :
    definitions.find? (·.uid = first.uid) = some first := by
  obtain ⟨hholds, before, behind, rfl, hothers⟩ := List.find?_eq_some_iff_append.mp h
  refine List.find?_eq_some_iff_append.mpr ⟨decide_eq_true rfl, before, behind, rfl, ?_⟩
  intro other hmem
  have hapart := hothers other hmem
  simp only [Bool.not_eq_true', decide_eq_false_iff_not, decide_eq_true_eq] at hapart hholds ⊢
  exact fun hsame => hapart (hsame ▸ hholds)

theorem get (h : Refines lower definitions catalog) (uid : Text) :
    catalog.getBy? lower uid =
      (definitions.find? (·.uid = uid)).or
        (definitions.find? (lower ·.uid = lower uid)) := by
  rw [getBy?, h.find, h.spelled]
  cases definitions.find? (·.uid = uid) with
  | some target => rfl
  | none =>
      cases hspelled : definitions.find? (lower ·.uid = lower uid) with
      | none => rfl
      | some first =>
          have hfound : catalog.find? first.uid = some first :=
            (h.find first.uid).trans (find?_first hspelled)
          simpa using hfound

theorem coherent (h : Refines lower definitions catalog) : Coherent lower catalog where
  points spelling uid hnoted := by
    rw [h.spelled, Option.map_eq_some_iff] at hnoted
    obtain ⟨first, hspelled, rfl⟩ := hnoted
    have hholds := List.find?_some hspelled
    refine ⟨?_, of_decide_eq_true hholds⟩
    rw [Catalog.contains, h.find, find?_first hspelled]
    rfl
  covers target hmem := by
    have hregistered : catalog.contains target.uid = true := by
      rw [contains_eq]
      exact List.any_eq_true.mpr ⟨target, hmem, decide_eq_true rfl⟩
    rw [h.contains] at hregistered
    obtain ⟨first, hdefined, hsame⟩ := List.any_eq_true.mp hregistered
    rw [h.spelled, Option.isSome_map, List.find?_isSome]
    exact ⟨first, hdefined, by simpa using congrArg lower (of_decide_eq_true hsame)⟩

end Refines

/--
After any registrations a target is new when its identifier is, the size counts the identifiers,
an identifier finds its first target or else the first one of its spelling, and the tables are in
step.
-/
theorem ofListBy_answers (lower : Text → Text) (definitions : List Target) :
    let catalog := ofListBy lower definitions
    (∀ target, (catalog.registerBy lower target).1 = !definitions.any (·.uid = target.uid)) ∧
      catalog.size = (definitions.map (·.uid)).toFinset.card ∧
      (∀ uid, catalog.getBy? lower uid =
        (definitions.find? (·.uid = uid)).or
          (definitions.find? (lower ·.uid = lower uid))) ∧
      Coherent lower catalog := by
  intro catalog
  have hrefines : Refines lower definitions catalog := .ofListBy lower definitions
  refine ⟨fun target => ?_, hrefines.size, hrefines.get, hrefines.coherent⟩
  rw [registerBy, ← hrefines.contains]
  split <;> simp_all

example :
    let catalog := ofList [{ uid := "a.B".toList }, { uid := "A.b".toList }]
    catalog.get? "A.b".toList = some { uid := "A.b".toList } ∧
      catalog.get? "A.B".toList = some { uid := "a.B".toList } := by
  decide

end Canonmark.Catalog
