import Canonmark.Proofs.Text.Basic
import Canonmark.Text.Splice
import Mathlib.Data.List.Pairwise

/-!
# Edits that are kept

Edits that ascend are already in the order in which they are applied, and none of them is
dropped as long as each starts behind the one before it and lies in the text. Edits in another
order are put in this one, so that edits of neighbouring parts may be collected as they come.
-/

namespace Canonmark.Splice

theorem insertSorted_of_le (edit : Edit) (edits : List Edit)
    (h : ∀ other ∈ edits, edit.span.start ≤ other.span.start) :
    insertSorted edit edits = edit :: edits := by
  cases edits with
  | nil => rfl
  | cons other rest =>
      have hle := h other (by simp)
      simp [insertSorted, hle]

theorem sort_eq_self {edits : List Edit}
    (h : edits.Pairwise (·.span.start ≤ ·.span.start)) : sort edits = edits := by
  induction edits with
  | nil => rfl
  | cons edit rest ih =>
      obtain ⟨hfirst, hrest⟩ := List.pairwise_cons.mp h
      change insertSorted edit (sort rest) = edit :: rest
      rw [ih hrest]
      exact insertSorted_of_le edit rest hfirst

theorem insertSorted_perm (edit : Edit) (edits : List Edit) :
    (insertSorted edit edits).Perm (edit :: edits) := by
  induction edits with
  | nil => exact .refl _
  | cons other rest ih =>
      rw [insertSorted]
      split
      · exact .refl _
      · exact (ih.cons other).trans (.swap edit other rest)

theorem sort_perm (edits : List Edit) : (sort edits).Perm edits := by
  induction edits with
  | nil => exact .refl _
  | cons edit rest ih => exact (insertSorted_perm edit (sort rest)).trans (ih.cons edit)

theorem pairwise_insertSorted {edits : List Edit} (edit : Edit)
    (h : edits.Pairwise (·.span.start ≤ ·.span.start)) :
    (insertSorted edit edits).Pairwise (·.span.start ≤ ·.span.start) := by
  induction edits with
  | nil => exact List.pairwise_singleton _ _
  | cons other rest ih =>
      have ⟨hfirst, hlater⟩ := List.pairwise_cons.mp h
      rw [insertSorted]
      split
      · next hle =>
          apply List.pairwise_cons.mpr ⟨_, h⟩
          intro next hmem
          rcases List.mem_cons.mp hmem with rfl | hmem
          · exact hle
          · exact Nat.le_trans hle (hfirst next hmem)
      · next hlt =>
          apply List.pairwise_cons.mpr ⟨_, ih hlater⟩
          intro next hmem
          rcases List.mem_cons.mp ((insertSorted_perm edit rest).mem_iff.mp hmem) with rfl | hmem
          · exact Nat.le_of_lt (Nat.lt_of_not_le hlt)
          · exact hfirst next hmem

theorem pairwise_sort (edits : List Edit) :
    (sort edits).Pairwise (·.span.start ≤ ·.span.start) := by
  induction edits with
  | nil => exact List.Pairwise.nil
  | cons edit rest ih => exact pairwise_insertSorted edit ih

theorem sort_eq_of_perm {edits sorted : List Edit} (hperm : edits.Perm sorted)
    (hascends : sorted.Pairwise (·.span.start < ·.span.start)) : sort edits = sorted := by
  have hsame : ∀ a ∈ sorted, ∀ b ∈ sorted, a.span.start = b.span.start → a = b := by
    intro a ha b hb hstarts
    by_contra hne
    have : Std.Symm fun a b : Edit => a.span.start ≠ b.span.start := ⟨fun _ _ h => Ne.symm h⟩
    have hapart : sorted.Pairwise (·.span.start ≠ ·.span.start) :=
      hascends.imp fun hlt => Nat.ne_of_lt hlt
    exact hapart.forall ha hb hne hstarts
  have hall := (sort_perm edits).trans hperm
  apply List.Perm.eq_of_pairwise _ (pairwise_sort edits) (hascends.imp Nat.le_of_lt) hall
  intro a b ha hb hle hge
  exact hsame a (hall.mem_iff.mp ha) b hb (Nat.le_antisymm hle hge)

def Chain (length : Nat) : Nat → List Edit → Prop
  | _, [] => True
  | cursor, edit :: rest =>
      cursor ≤ edit.span.start ∧ edit.span.stop ≤ length ∧ Chain length edit.span.stop rest

theorem Chain.start_le {length cursor : Nat} {edits : List Edit}
    (h : Chain length cursor edits) : ∀ edit ∈ edits, cursor ≤ edit.span.start := by
  induction edits generalizing cursor with
  | nil => simp
  | cons edit rest ih =>
      obtain ⟨hstart, -, hrest⟩ := h
      intro other hother
      rcases List.mem_cons.mp hother with rfl | hmem
      · exact hstart
      · exact Nat.le_trans hstart (Nat.le_trans edit.span.start_le_stop (ih hrest other hmem))

theorem Chain.pairwise {length cursor : Nat} {edits : List Edit}
    (h : Chain length cursor edits) : edits.Pairwise (·.span.start ≤ ·.span.start) := by
  induction edits generalizing cursor with
  | nil => exact List.Pairwise.nil
  | cons edit rest ih =>
      obtain ⟨-, -, hrest⟩ := h
      refine List.pairwise_cons.mpr ⟨fun other hother => ?_, ih hrest⟩
      exact Nat.le_trans edit.span.start_le_stop (hrest.start_le other hother)

theorem Chain.keep_eq_self {length cursor : Nat} {edits : List Edit}
    (h : Chain length cursor edits) : keep length cursor edits = edits := by
  induction edits generalizing cursor with
  | nil => rfl
  | cons edit rest ih =>
      obtain ⟨hstart, hstop, hrest⟩ := h
      have hkept : ¬(edit.span.start < cursor ∨ length < edit.span.stop) := by omega
      simp [keep, hkept, ih hrest]

theorem apply_of_chain {edits : List Edit} {text : Text}
    (h : Chain text.length 0 edits) : apply edits text = replace 0 text edits := by
  rw [apply, sort_eq_self h.pairwise, h.keep_eq_self]

theorem Chain.append {first second : List Edit} {cursor middle length : Nat}
    (h : Chain middle cursor first) (hlater : Chain length middle second) (hle : cursor ≤ middle)
    (hinside : middle ≤ length) : Chain length cursor (first ++ second) := by
  induction first generalizing cursor with
  | nil =>
      cases second with
      | nil => trivial
      | cons edit rest => exact ⟨Nat.le_trans hle hlater.1, hlater.2⟩
  | cons edit rest ih =>
      obtain ⟨hstart, hstop, hbehind⟩ := h
      exact ⟨hstart, Nat.le_trans hstop hinside, ih hbehind hstop⟩

theorem Chain.ascends {length cursor : Nat} {edits : List Edit} (h : Chain length cursor edits)
    (hwide : ∀ edit ∈ edits, edit.span.start < edit.span.stop) :
    edits.Pairwise (·.span.start < ·.span.start) := by
  induction edits generalizing cursor with
  | nil => exact List.Pairwise.nil
  | cons edit rest ih =>
      obtain ⟨-, -, hlater⟩ := h
      refine List.pairwise_cons.mpr
        ⟨fun other hmem => ?_, ih hlater fun other hmem => hwide other
        (List.mem_cons_of_mem _ hmem)⟩
      exact Nat.lt_of_lt_of_le (hwide edit List.mem_cons_self) (hlater.start_le other hmem)

theorem replace_append {first second : List Edit} {cursor middle length : Nat}
    {before behind : Text} (h : Chain middle cursor first) (hlater : Chain length middle second)
    (hsize : before.length = middle - cursor) (hle : cursor ≤ middle) :
    replace cursor (before ++ behind) (first ++ second) =
      replace cursor before first ++ replace middle behind second := by
  induction first generalizing cursor before with
  | nil =>
      cases second with
      | nil => rfl
      | cons edit rest =>
          have hstart := hlater.1
          have hstop := edit.span.start_le_stop
          have hfromStart :
              edit.span.start - cursor = before.length + (edit.span.start - middle) := by
            omega
          have hfromStop : edit.span.stop - cursor = before.length + (edit.span.stop - middle) := by
            omega
          simp only [List.nil_append, replace, hfromStart, hfromStop, List.take_length_add_append,
            List.drop_length_add_append, List.append_assoc]
  | cons edit rest ih =>
      obtain ⟨hstart, hstop, hrest'⟩ := h
      have hspan := edit.span.start_le_stop
      have hfits : edit.span.stop - cursor ≤ before.length := by omega
      have hstarts : edit.span.start - cursor ≤ before.length := by omega
      have hbehindEdit := @ih _ (before.drop (edit.span.stop - cursor)) hrest'
        (by rw [List.length_drop]; omega) hstop
      simp only [List.cons_append, replace, List.drop_append_of_le_length hfits,
        List.take_append_of_le_length hstarts, hbehindEdit, List.append_assoc]

/--
Edits of the part of a text from `start` to `stop`, in any order, that turn it into `out`. None
is an insertion.
-/
inductive Replaced (text : Text) : (start stop : Nat) → List Edit → (out : Text) → Prop
  | keep {start stop : Nat} (hle : start ≤ stop) (hinside : stop ≤ text.length) :
      Replaced text start stop [] (Span.slice (.upTo start stop) text)
  | edit {start width : Nat} (new : Text) (hwide : 0 < width)
      (hinside : start + width ≤ text.length) :
      Replaced text start (start + width) [.replacement start width new] new
  | append {start middle stop : Nat} {first second : List Edit} {out later : Text} :
      Replaced text start middle first out → Replaced text middle stop second later →
      Replaced text start stop (first ++ second) (out ++ later)
  | perm {start stop : Nat} {edits others : List Edit} {out : Text} :
      edits.Perm others → Replaced text start stop edits out → Replaced text start stop others out

/-- What edits of a part amount to once they are in order. -/
structure Replaced.Sorted (text : Text) (start stop : Nat) (edits sorted : List Edit)
    (out : Text) : Prop where
  le : start ≤ stop
  inside : stop ≤ text.length
  perm : edits.Perm sorted
  chain : Chain stop start sorted
  wide : ∀ edit ∈ sorted, edit.span.start < edit.span.stop
  out_eq : replace start (Span.slice (.upTo start stop) text) sorted = out

theorem Replaced.exists_sorted {text : Text} {start stop : Nat} {edits : List Edit} {out : Text}
    (h : Replaced text start stop edits out) :
    ∃ sorted, Sorted text start stop edits sorted out := by
  induction h with
  | keep hle hinside => exact ⟨[], hle, hinside, .refl _, trivial, by simp, rfl⟩
  | edit new hwide hinside =>
      exact ⟨[.replacement _ _ new], Nat.le_add_right _ _, hinside, .refl _,
        ⟨Nat.le_refl _, Nat.le_refl _, trivial⟩, by simpa [Edit.replacement] using hwide,
        by simp [replace, Edit.replacement, Span.slice_upTo]⟩
  | append _ _ ih hlater =>
      obtain ⟨sorted, hfirst⟩ := ih
      obtain ⟨behind, hsecond⟩ := hlater
      refine ⟨sorted ++ behind, Nat.le_trans hfirst.le hsecond.le, hsecond.inside,
        hfirst.perm.append hsecond.perm, hfirst.chain.append hsecond.chain hfirst.le hsecond.le, ?_,
        ?_⟩
      · intro edit hmem
        exact (List.mem_append.mp hmem).elim (hfirst.wide edit) (hsecond.wide edit)
      · have hsize : (Span.slice (.upTo _ _) text).length = _ - _ :=
          Text.length_slice hfirst.le (Nat.le_trans hsecond.le hsecond.inside)
        rw [← Text.slice_append text hfirst.le hsecond.le,
          replace_append hfirst.chain hsecond.chain hsize hfirst.le, hfirst.out_eq, hsecond.out_eq]
  | perm horder _ ih =>
      obtain ⟨sorted, hfirst⟩ := ih
      exact ⟨sorted, { hfirst with perm := horder.symm.trans hfirst.perm }⟩

theorem Replaced.sort_eq {text : Text} {start stop : Nat} {edits sorted : List Edit} {out : Text}
    (h : Sorted text start stop edits sorted out) : sort edits = sorted :=
  sort_eq_of_perm h.perm (h.chain.ascends h.wide)

/-- Edits of the parts of a text are all applied, in whatever order they come. -/
theorem Replaced.apply_eq {text : Text} {edits : List Edit} {out : Text}
    (h : Replaced text 0 text.length edits out) : apply edits text = out := by
  obtain ⟨sorted, h⟩ := h.exists_sorted
  rw [apply, sort_eq h, h.chain.keep_eq_self, ← h.out_eq]
  simp [Span.slice_upTo]

theorem Replaced.keep_sort {text : Text} {edits : List Edit} {out : Text}
    (h : Replaced text 0 text.length edits out) :
    Splice.keep text.length 0 (sort edits) = sort edits := by
  obtain ⟨sorted, h⟩ := h.exists_sorted
  rw [sort_eq h, h.chain.keep_eq_self]

end Canonmark.Splice
