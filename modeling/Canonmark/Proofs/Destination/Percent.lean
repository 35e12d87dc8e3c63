import Canonmark.Proofs.Destination.Encoding

/-!
# Coding once more

In a coded destination every percent sign starts a triplet. Nothing is left to be coded in it, so
that coding it once more changes nothing.
-/

namespace Canonmark

theorem Parentheses.unmatchedFrom_of_balanced {opened : List Nat} {text : Text}
    (h : balanced opened.length text = true) (position : Nat) :
    unmatchedFrom position opened text = [] := by
  induction text generalizing position opened with
  | nil =>
      have hnone : opened = [] := List.eq_nil_of_length_eq_zero (of_decide_eq_true h)
      rw [hnone, unmatchedFrom, List.reverse_nil]
  | cons c rest ih =>
      simp only [balanced] at h
      simp only [unmatchedFrom]
      split
      · next hopens =>
          rw [if_pos hopens] at h
          exact @ih (position :: opened) h _
      · next hother =>
          rw [if_neg hother] at h
          split
          · next hcloses =>
              rw [if_pos hcloses, Bool.and_eq_true] at h
              cases opened with
              | nil => exact absurd h.1 (by decide)
              | cons latest opened => exact ih h.2 _
          · next hplain =>
              rw [if_neg hplain] at h
              exact ih h _

namespace Percent

open Parentheses

def onlyTriplets : Text → Bool
  | [] => true
  | c :: rest => (c ≠ '%' || startsTriplet rest) && onlyTriplets rest

structure IsCoded (text : Text) : Prop where
  plain : ∀ c ∈ text, isPlain c = true
  triplets : onlyTriplets text = true
  balanced : balanced 0 text = true

theorem startsTriplet_iff {text : Text} : startsTriplet text = true ↔
    ∃ high low behind, text = high :: low :: behind ∧ Ascii.isHexDigit high = true ∧
      Ascii.isHexDigit low = true := by
  match text with
  | [] => simp [startsTriplet]
  | [_] => simp [startsTriplet]
  | high :: low :: behind =>
      simp only [startsTriplet, Bool.and_eq_true]
      refine ⟨fun hdigits => ⟨high, low, behind, rfl, hdigits⟩, ?_⟩
      rintro ⟨_, _, _, heq, hdigits⟩
      cases heq
      exact hdigits

theorem isHexDigit_hexDigit : ∀ n < 16, Ascii.isHexDigit (hexDigit n) = true := by
  decide

theorem not_isReserved_of_isHexDigit {c : Char} (h : Ascii.isHexDigit c = true)
    (unmatched : Bool) (rest : Text) : isReserved unmatched c rest = false := by
  refine eq_false_of_ne_true fun hreserved => ?_
  have hletter := Entity.isLetterOrDigit_of_isHexDigit h
  have hspec := (isReserved_spec hreserved).2.1
  simp [Entity.isReferenceChar, hletter] at hspec

theorem ne_percent_of_isHexDigit {c : Char} (h : Ascii.isHexDigit c = true) : c ≠ '%' := by
  rintro rfl
  exact absurd h (by decide)

theorem startsTriplet_encodeFrom {text : Text} (h : startsTriplet text = true)
    (unmatched : List Nat) (position : Nat) :
    startsTriplet (encodeFrom unmatched position text) = true := by
  obtain ⟨high, low, behind, rfl, hhigh, hlow⟩ := startsTriplet_iff.mp h
  simp only [encodeFrom, not_isReserved_of_isHexDigit hhigh, not_isReserved_of_isHexDigit hlow]
  exact h

theorem onlyTriplets_triplet {c : Char} (hsmall : c.toNat < 128) (rest : Text) :
    onlyTriplets (triplet c ++ rest) = onlyTriplets rest := by
  have hhigh := isHexDigit_hexDigit (c.toNat / 16) (by omega)
  have hlow := isHexDigit_hexDigit (c.toNat % 16) (by omega)
  simp [triplet, onlyTriplets, startsTriplet, hhigh, hlow, ne_percent_of_isHexDigit hhigh,
    ne_percent_of_isHexDigit hlow]

theorem onlyTriplets_encodeFrom (unmatched : List Nat) (position : Nat) (text : Text) :
    onlyTriplets (encodeFrom unmatched position text) = true := by
  induction text generalizing position with
  | nil => rfl
  | cons c rest ih =>
      rw [encodeFrom]
      split
      · next hreserved =>
          rw [onlyTriplets_triplet (isReserved_spec hreserved).1]
          exact ih _
      · next hfree =>
          rw [List.cons_append, List.nil_append, onlyTriplets, ih, Bool.and_true,
            Bool.or_eq_true, decide_eq_true_eq]
          by_cases hpercent : c = '%'
          · subst hpercent
            have hstarts : startsTriplet rest = true := by simpa [isReserved] using hfree
            exact .inr (startsTriplet_encodeFrom hstarts _ _)
          · exact .inl hpercent

theorem isCoded_encode (destination : Text) : IsCoded (encode destination) where
  plain _ hmem := isPlain_of_mem_encodeFrom hmem
  triplets := onlyTriplets_encodeFrom _ _ _
  balanced := balanced_encode destination

theorem not_isReserved {c : Char} {rest : Text} (hplain : isPlain c = true)
    (hstarts : c ≠ '%' ∨ startsTriplet rest = true) : isReserved false c rest = false := by
  rw [isReserved]
  split
  · next hpercent => simpa using hstarts.resolve_left fun hother => hother hpercent
  · split
    · rfl
    · simpa only [isPlain, Bool.not_eq_true'] using hplain

theorem encodeFrom_of_plain {text : Text} (hplain : ∀ c ∈ text, isPlain c = true)
    (htriplets : onlyTriplets text = true) (position : Nat) :
    encodeFrom [] position text = text := by
  induction text generalizing position with
  | nil => rfl
  | cons c rest ih =>
      rw [onlyTriplets, Bool.and_eq_true, Bool.or_eq_true, decide_eq_true_eq] at htriplets
      obtain ⟨hhere, hbehind⟩ := List.forall_mem_cons.mp hplain
      rw [encodeFrom, ih hbehind htriplets.2, List.contains_nil, not_isReserved hhere htriplets.1]
      rfl

theorem IsCoded.encode {text : Text} (h : IsCoded text) : encode text = text := by
  have hmatched : unmatched text = [] := @unmatchedFrom_of_balanced [] text h.balanced 0
  rw [Percent.encode, hmatched]
  exact encodeFrom_of_plain h.plain h.triplets 0

theorem encode_encode (destination : Text) : encode (encode destination) = encode destination :=
  (isCoded_encode destination).encode

end Percent

end Canonmark
