import Canonmark.Destination.Percent
import Canonmark.Proofs.Text.Entity

/-!
# Percent coded destinations

A coded destination has balanced parentheses and no character that ends it, and coding makes no
character reference.
-/

namespace Canonmark

namespace Parentheses

/-- Whether all parentheses have partners, `nesting` of them being open before the text. -/
def balanced (nesting : Nat) : Text → Bool
  | [] => nesting = 0
  | c :: rest =>
      if c = '(' then balanced (nesting + 1) rest
      else if c = ')' then 0 < nesting && balanced (nesting - 1) rest
      else balanced nesting rest

def depth (nesting : Nat) : Text → Nat
  | [] => nesting
  | c :: rest =>
      if c = '(' then depth (nesting + 1) rest
      else if c = ')' then max nesting (depth (nesting - 1) rest)
      else depth nesting rest

theorem le_depth (nesting : Nat) (text : Text) : nesting ≤ depth nesting text := by
  induction text generalizing nesting with
  | nil => exact Nat.le_refl _
  | cons c rest ih =>
      simp only [depth]
      split
      · exact Nat.le_of_succ_le (ih (nesting + 1))
      · split
        · exact Nat.le_max_left _ _
        · exact ih nesting

theorem mem_unmatchedFrom {i position : Nat} {opened : List Nat} {text : Text}
    (h : i ∈ unmatchedFrom position opened text) : i ∈ opened ∨ position ≤ i := by
  induction text generalizing position opened with
  | nil => exact .inl (by simpa [unmatchedFrom] using h)
  | cons c rest ih =>
      simp only [unmatchedFrom] at h
      split at h
      · rcases ih h with h | h
        · rcases List.mem_cons.mp h with rfl | h
          · exact .inr (Nat.le_refl _)
          · exact .inl h
        · exact .inr (by omega)
      · split at h
        · cases opened with
          | nil =>
              rcases List.mem_cons.mp h with rfl | h
              · exact .inr (Nat.le_refl _)
              · rcases ih h with h | h
                · exact .inl h
                · exact .inr (by omega)
          | cons latest opened =>
              rcases ih h with h | h
              · exact .inl (List.mem_cons_of_mem _ h)
              · exact .inr (by omega)
        · rcases ih h with h | h
          · exact .inl h
          · exact .inr (by omega)

end Parentheses

namespace Percent

open Parentheses

def isPlain (c : Char) : Bool := !(c = ' ' || c = '<' || c = '>' || Ascii.isControl c)

theorem lt_of_isPlain {c : Char} (h : isPlain c = true) : ' ' < c := by
  simp only [isPlain, Ascii.isControl, Bool.not_eq_true', Bool.or_eq_false_iff,
    decide_eq_false_iff_not] at h
  obtain ⟨⟨⟨hspace, -⟩, -⟩, hlow, -⟩ := h
  rcases Std.lt_trichotomy c ' ' with h | h | h
  · exact absurd h hlow
  · exact absurd h hspace
  · exact h

theorem hexDigit_spec : ∀ n < 16,
    isPlain (hexDigit n) = true ∧ hexDigit n ≠ '(' ∧ hexDigit n ≠ ')' ∧ hexDigit n ≠ '&' := by
  decide

theorem control_spec : ∀ n < 32,
    Entity.isReferenceChar (Char.ofNat n) = false ∧ Char.ofNat n ≠ '&' := by
  decide

theorem isReserved_spec {unmatched : Bool} {c : Char} {rest : Text}
    (h : isReserved unmatched c rest = true) :
    c.toNat < 128 ∧ Entity.isReferenceChar c = false ∧ c ≠ '&' := by
  simp only [isReserved] at h
  split at h
  · subst c
    decide
  · split at h
    · rename_i hparen
      simp only [Bool.or_eq_true, decide_eq_true_eq] at hparen
      rcases hparen with rfl | rfl
      all_goals decide
    · simp only [Ascii.isControl, Bool.or_eq_true, decide_eq_true_eq] at h
      rcases h with ((rfl | rfl) | rfl) | hlow | rfl
      · decide
      · decide
      · decide
      · have hlow : c.toNat < 32 := UInt32.lt_iff_toNat_lt.mp (Char.lt_def.mp hlow)
        have hspec := control_spec _ hlow
        rw [Char.ofNat_toNat] at hspec
        exact ⟨by omega, hspec⟩
      · decide

theorem isPlain_of_not_isReserved {unmatched : Bool} {c : Char} {rest : Text}
    (h : isReserved unmatched c rest = false) : isPlain c = true := by
  simp only [isReserved] at h
  split at h
  · subst c
    decide
  · split at h
    · rename_i hparen
      simp only [Bool.or_eq_true, decide_eq_true_eq] at hparen
      rcases hparen with rfl | rfl
      all_goals decide
    · simp only [isPlain, h, Bool.not_false]

theorem isPlain_of_mem_encodeFrom {unmatched : List Nat} {position : Nat} {text : Text} {c : Char}
    (h : c ∈ encodeFrom unmatched position text) : isPlain c = true := by
  induction text generalizing position with
  | nil => cases h
  | cons d rest ih =>
      rcases List.mem_append.mp h with h | h
      · split at h
        · rename_i hreserved
          have hsmall := (isReserved_spec hreserved).1
          simp only [triplet, List.mem_cons, List.not_mem_nil, or_false] at h
          rcases h with rfl | rfl | rfl
          · decide
          · exact (hexDigit_spec _ (by omega)).1
          · exact (hexDigit_spec _ (by omega)).1
        · rename_i hfree
          obtain rfl := List.mem_singleton.mp h
          exact isPlain_of_not_isReserved (by simpa using hfree)
      · exact ih h

theorem balanced_triplet {c : Char} (hsmall : c.toNat < 128) (nesting : Nat) (rest : Text) :
    balanced nesting (triplet c ++ rest) = balanced nesting rest := by
  obtain ⟨-, hhigh⟩ := hexDigit_spec (c.toNat / 16) (by omega)
  obtain ⟨-, hlow⟩ := hexDigit_spec (c.toNat % 16) (by omega)
  simp only [triplet, List.cons_append, List.nil_append, balanced, if_neg hhigh.1, if_neg hhigh.2.1,
    if_neg hlow.1, if_neg hlow.2.1]
  rfl

@[simp] theorem isReserved_opening (unmatched : Bool) (rest : Text) :
    isReserved unmatched '(' rest = unmatched := rfl

@[simp] theorem isReserved_closing (unmatched : Bool) (rest : Text) :
    isReserved unmatched ')' rest = unmatched := rfl

theorem balanced_encodeFrom_cons {c : Char} (hopens : c ≠ '(') (hcloses : c ≠ ')')
    (unmatched : List Nat) (position nesting : Nat) (rest : Text) :
    balanced nesting (encodeFrom unmatched position (c :: rest))
      = balanced nesting (encodeFrom unmatched (position + 1) rest) := by
  rw [encodeFrom]
  split
  · rename_i hreserved
    exact balanced_triplet (isReserved_spec hreserved).1 _ _
  · simp only [List.cons_append, List.nil_append, balanced, if_neg hopens, if_neg hcloses]

/-- Open parentheses with a partner: those that are not in the list of unmatched ones. -/
def pending (unmatched opened : List Nat) : Nat := opened.countP fun i => !unmatched.contains i

theorem pending_cons (unmatched opened : List Nat) (latest : Nat) :
    pending unmatched (latest :: opened)
      = pending unmatched opened + (if latest ∈ unmatched then 0 else 1) := by
  by_cases h : latest ∈ unmatched
  all_goals simp [pending, h]

theorem balanced_encodeFrom_opening (unmatched opened : List Nat) (position : Nat) (rest : Text) :
    balanced (pending unmatched opened) (encodeFrom unmatched position ('(' :: rest))
      = balanced (pending unmatched (position :: opened))
          (encodeFrom unmatched (position + 1) rest) := by
  rw [encodeFrom, isReserved_opening, pending_cons]
  by_cases hcoded : position ∈ unmatched
  · rw [if_pos (List.contains_iff_mem.mpr hcoded), balanced_triplet (by decide), if_pos hcoded]
    rfl
  · rw [if_neg (mt List.contains_iff_mem.mp hcoded), if_neg hcoded]
    rfl

/--
The invariant of the coding: what is unmatched from here on is what the list says of the open
parentheses and of those that follow.
-/
theorem balanced_encodeFrom {unmatched opened : List Nat} {position : Nat} {text : Text}
    (hbefore : ∀ i ∈ opened, i < position) (hdistinct : opened.Nodup)
    (hknown : ∀ i, i ∈ opened ∨ position ≤ i →
      (i ∈ unmatched ↔ i ∈ unmatchedFrom position opened text)) :
    balanced (pending unmatched opened) (encodeFrom unmatched position text) = true := by
  induction text generalizing position opened with
  | nil =>
      have hnone : pending unmatched opened = 0 := by
        rw [pending, List.countP_eq_zero]
        intro i hmem
        simpa [unmatchedFrom, hmem] using hknown i (.inl hmem)
      simp only [encodeFrom, balanced, hnone, decide_true]
  | cons c rest ih =>
      have hnext :
          ∀ i ∈ opened, i < position + 1 := fun i hmem => Nat.lt_succ_of_lt (hbefore i hmem)
      have hfresh : position ∉ opened := fun hmem => Nat.lt_irrefl _ (hbefore position hmem)
      simp only [unmatchedFrom] at hknown
      by_cases hopens : c = '('
      · subst hopens
        rw [balanced_encodeFrom_opening]
        apply ih (List.forall_mem_cons.mpr ⟨Nat.lt_succ_self _, hnext⟩)
          (List.nodup_cons.mpr ⟨hfresh, hdistinct⟩)
        intro i hplace
        apply hknown i
        rcases hplace with hmem | habove
        · rcases List.mem_cons.mp hmem with rfl | hmem
          · exact .inr (Nat.le_refl _)
          · exact .inl hmem
        · exact .inr (Nat.le_of_succ_le habove)
      · simp only [if_neg hopens] at hknown
        by_cases hcloses : c = ')'
        · subst hcloses
          rw [encodeFrom, isReserved_closing]
          cases opened with
          | nil =>
              have hcoded : position ∈ unmatched :=
                (hknown position (.inr (Nat.le_refl _))).mpr List.mem_cons_self
              rw [if_pos (List.contains_iff_mem.mpr hcoded), balanced_triplet (by decide)]
              apply ih hnext hdistinct
              intro i hplace
              have habove : position + 1 ≤ i := by simpa using hplace
              rw [hknown i (.inr (Nat.le_of_succ_le habove))]
              exact ⟨fun hmem => (List.mem_cons.mp hmem).resolve_left (by omega),
                List.mem_cons_of_mem _⟩
          | cons latest opened =>
              obtain ⟨hother, hdistinct⟩ := List.nodup_cons.mp hdistinct
              simp only [if_pos] at hknown
              have hmatched : latest ∉ unmatched := by
                rw [hknown latest (.inl List.mem_cons_self)]
                intro hmem
                rcases mem_unmatchedFrom hmem with hmem | habove
                · exact hother hmem
                · exact absurd (hbefore latest List.mem_cons_self) (by omega)
              have hkept : position ∉ unmatched := by
                rw [hknown position (.inr (Nat.le_refl _))]
                intro hmem
                rcases mem_unmatchedFrom hmem with hmem | habove
                · exact hfresh (List.mem_cons_of_mem _ hmem)
                · omega
              have hstep := ih (fun i hmem => hnext i (List.mem_cons_of_mem _ hmem)) hdistinct
                fun i hplace => hknown i (hplace.imp (List.mem_cons_of_mem _) Nat.le_of_succ_le)
              rw [if_neg (mt List.contains_iff_mem.mp hkept), pending_cons, if_neg hmatched]
              simpa [balanced] using hstep
        · simp only [if_neg hcloses] at hknown
          rw [balanced_encodeFrom_cons hopens hcloses]
          exact ih hnext hdistinct fun i hplace => hknown i (hplace.imp_right Nat.le_of_succ_le)

theorem balanced_encode (destination : Text) : balanced 0 (encode destination) = true :=
  balanced_encodeFrom (by simp) List.nodup_nil (fun _ _ => Iff.rfl)

open Entity

theorem takeWhile_encodeFrom (unmatched : List Nat) (position : Nat) (text : Text) :
    (encodeFrom unmatched position text).takeWhile isReferenceChar
      = text.takeWhile isReferenceChar := by
  induction text generalizing position with
  | nil => rfl
  | cons c rest ih =>
      rw [encodeFrom]
      split
      · rename_i hreserved
        rw [List.takeWhile_cons, (isReserved_spec hreserved).2.1]
        rfl
      · rw [List.cons_append, List.nil_append, List.takeWhile_cons, List.takeWhile_cons, ih]

theorem absent_triplet {c : Char} (hsmall : c.toNat < 128) (rest : Text) :
    absent (triplet c ++ rest) = absent rest := by
  obtain ⟨-, -, -, hhigh⟩ := hexDigit_spec (c.toNat / 16) (by omega)
  obtain ⟨-, -, -, hlow⟩ := hexDigit_spec (c.toNat % 16) (by omega)
  simp [triplet, absent, hhigh, hlow]

theorem absent_encodeFrom {text : Text} (h : absent text = true) (unmatched : List Nat)
    (position : Nat) : absent (encodeFrom unmatched position text) = true := by
  induction text generalizing position with
  | nil => rfl
  | cons c rest ih =>
      simp only [absent, Bool.and_eq_true] at h
      rw [encodeFrom]
      split
      · rename_i hreserved
        rw [absent_triplet (isReserved_spec hreserved).1]
        exact ih h.2 _
      · simp only [List.cons_append, List.nil_append, absent, Bool.and_eq_true]
        refine ⟨?_, ih h.2 _⟩
        rw [reference?_congr (takeWhile_encodeFrom _ _ _)]
        exact h.1

end Percent

end Canonmark
