import Canonmark.Proofs.Destination.Percent

/-!
# Safe destinations

Parentheses are balanced where a text is made of plain characters and of pairs that stand beside
each other and within each other. Destinations with such parentheses, in which nothing ends a
destination and each percent sign starts a triplet, are safe. Coding makes every destination safe
and leaves those alone that are.
-/

namespace Canonmark

namespace Parentheses

inductive Balanced : Text → Prop
  | nil : Balanced []
  | plain {c : Char} {rest : Text} : c ≠ '(' → c ≠ ')' → Balanced rest → Balanced (c :: rest)
  | pair {inner rest : Text} : Balanced inner → Balanced rest →
      Balanced ('(' :: inner ++ ')' :: rest)

theorem balanced_cons {c : Char} (hopens : c ≠ '(') (hcloses : c ≠ ')') (nesting : Nat)
    (rest : Text) : balanced nesting (c :: rest) = balanced nesting rest := by
  rw [balanced, if_neg hopens, if_neg hcloses]

theorem Balanced.balanced_append {text : Text} (h : Balanced text) (nesting : Nat)
    (behind : Text) : balanced nesting (text ++ behind) = balanced nesting behind := by
  induction h generalizing nesting behind with
  | nil => rfl
  | plain hopens hcloses _ ih => rw [List.cons_append, balanced_cons hopens hcloses, ih]
  | @pair inner rest _ _ ihInner ihRest =>
      have hwithin := ihInner (nesting + 1) (')' :: (rest ++ behind))
      rw [List.append_assoc, List.cons_append, List.cons_append]
      calc balanced nesting ('(' :: (inner ++ ')' :: (rest ++ behind)))
          = balanced (nesting + 1) (inner ++ ')' :: (rest ++ behind)) := rfl
        _ = balanced (nesting + 1) (')' :: (rest ++ behind)) := hwithin
        _ = balanced nesting (rest ++ behind) := by simp [balanced]
        _ = balanced nesting behind := ihRest nesting behind

theorem exists_partner {nesting : Nat} {text : Text} (h : balanced (nesting + 1) text = true) :
    ∃ inner rest, text = inner ++ ')' :: rest ∧ Balanced inner ∧ balanced nesting rest = true := by
  match text with
  | [] => exact absurd (of_decide_eq_true h) (Nat.succ_ne_zero nesting)
  | c :: text =>
      by_cases hopens : c = '('
      · subst hopens
        obtain ⟨inner, rest, hwhole, hwithin, hlater⟩ := @exists_partner (nesting + 1) text h
        have hshorter : rest.length < text.length + 1 := by simp [hwhole]; omega
        obtain ⟨next, last, rfl, hbeside, houtside⟩ := exists_partner hlater
        exact ⟨'(' :: inner ++ ')' :: next, last, by simp [hwhole], .pair hwithin hbeside, houtside⟩
      · by_cases hcloses : c = ')'
        · subst hcloses
          exact ⟨[], text, rfl, .nil, by simpa [balanced] using h⟩
        · rw [balanced_cons hopens hcloses] at h
          obtain ⟨inner, rest, rfl, hwithin, hlater⟩ := exists_partner h
          exact ⟨c :: inner, rest, rfl, .plain hopens hcloses hwithin, hlater⟩
termination_by text.length

theorem Balanced.of_balanced {text : Text} (h : balanced 0 text = true) : Balanced text := by
  match text with
  | [] => exact .nil
  | c :: text =>
      by_cases hopens : c = '('
      · subst hopens
        obtain ⟨inner, rest, hwhole, hwithin, hlater⟩ := @exists_partner 0 text h
        have hshorter : rest.length < text.length + 1 := by simp [hwhole]; omega
        rw [hwhole]
        exact .pair hwithin (.of_balanced hlater)
      · by_cases hcloses : c = ')'
        · subst hcloses
          simp [balanced] at h
        · rw [balanced_cons hopens hcloses] at h
          exact .plain hopens hcloses (.of_balanced h)
termination_by text.length

theorem balanced_iff {text : Text} : balanced 0 text = true ↔ Balanced text := by
  refine ⟨.of_balanced, fun h => ?_⟩
  simpa [balanced] using h.balanced_append 0 []

end Parentheses

namespace Percent

open Parentheses

/-- A destination that can be written as it is, with nothing in it that ends it. -/
structure IsSafe (destination : Text) : Prop where
  printed : ∀ c ∈ destination, 32 ≤ c.toNat ∧ c.toNat ≠ 127
  unended : ' ' ∉ destination ∧ '<' ∉ destination ∧ '>' ∉ destination
  triplets : ∀ before behind, destination = before ++ '%' :: behind →
    ∃ high low rest, behind = high :: low :: rest ∧ Ascii.isHexDigit high = true ∧
      Ascii.isHexDigit low = true
  balanced : Balanced destination

theorem isControl_eq_false_iff (c : Char) :
    Ascii.isControl c = false ↔ 32 ≤ c.toNat ∧ c.toNat ≠ 127 := by
  have hlow : c < ' ' ↔ c.toNat < 32 := by
    rw [Char.lt_def, UInt32.lt_iff_toNat_lt]
    rfl
  have hdelete : c = '\x7f' ↔ c.toNat = 127 := Char.toNat_inj.symm
  simp only [Ascii.isControl, Bool.or_eq_false_iff, decide_eq_false_iff_not, hlow, hdelete,
    Nat.not_lt]

theorem isPlain_iff (c : Char) :
    isPlain c = true ↔ c ≠ ' ' ∧ c ≠ '<' ∧ c ≠ '>' ∧ 32 ≤ c.toNat ∧ c.toNat ≠ 127 := by
  simp only [isPlain, Bool.not_eq_true', Bool.or_eq_false_iff, decide_eq_false_iff_not,
    isControl_eq_false_iff, and_assoc, ne_eq]

theorem onlyTriplets_iff (text : Text) :
    onlyTriplets text = true ↔ ∀ before behind, text = before ++ '%' :: behind →
      startsTriplet behind = true := by
  induction text with
  | nil => simp [onlyTriplets]
  | cons c rest ih =>
      rw [onlyTriplets, Bool.and_eq_true, Bool.or_eq_true, decide_eq_true_eq, ih]
      constructor
      · rintro ⟨hhere, hlater⟩ before behind heq
        cases before with
        | nil =>
            obtain ⟨rfl, rfl⟩ := List.cons.inj heq
            exact hhere.resolve_left fun hother => hother rfl
        | cons first before => exact hlater before behind (List.cons.inj heq).2
      · intro h
        constructor
        · by_cases hpercent : c = '%'
          · exact .inr (h [] rest (by rw [hpercent]; rfl))
          · exact .inl hpercent
        · intro before behind heq
          exact h (c :: before) behind (by rw [heq]; rfl)

theorem isSafe_iff {destination : Text} : IsSafe destination ↔ IsCoded destination := by
  constructor
  · rintro ⟨hprinted, ⟨hspace, hopening, hclosing⟩, htriplets, hbalanced⟩
    refine ⟨fun c hmem => (isPlain_iff c).mpr ⟨?_, ?_, ?_, hprinted c hmem⟩, ?_, ?_⟩
    · exact ne_of_mem_of_not_mem hmem hspace
    · exact ne_of_mem_of_not_mem hmem hopening
    · exact ne_of_mem_of_not_mem hmem hclosing
    · exact (onlyTriplets_iff _).mpr fun before behind heq =>
        startsTriplet_iff.mpr (htriplets before behind heq)
    · exact balanced_iff.mpr hbalanced
  · rintro ⟨hplain, htriplets, hbalanced⟩
    have hspec (c : Char) (hmem : c ∈ destination) := (isPlain_iff c).mp (hplain c hmem)
    refine ⟨fun c hmem => (hspec c hmem).2.2.2, ⟨?_, ?_, ?_⟩, ?_, balanced_iff.mp hbalanced⟩
    · exact fun hmem => (hspec _ hmem).1 rfl
    · exact fun hmem => (hspec _ hmem).2.1 rfl
    · exact fun hmem => (hspec _ hmem).2.2.1 rfl
    · exact fun before behind heq =>
        startsTriplet_iff.mp ((onlyTriplets_iff _).mp htriplets before behind heq)

/--
Coding makes each destination safe, and leaves it as it is exactly when it is safe. So nothing is
coded twice.
-/
theorem encode_normalizes (destination : Text) :
    IsSafe (encode destination) ∧ (encode destination = destination ↔ IsSafe destination) ∧
      encode (encode destination) = encode destination := by
  have hsafe : IsSafe (encode destination) := isSafe_iff.mpr (isCoded_encode destination)
  refine ⟨hsafe, ⟨fun hsame => hsame ▸ hsafe, fun h => ?_⟩, ?_⟩
  · exact (isSafe_iff.mp h).encode
  · exact (isSafe_iff.mp hsafe).encode

end Percent

end Canonmark
