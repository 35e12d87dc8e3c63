import Canonmark.Text.Entity

/-!
# Extent of character references

A reference reaches as far as letters, digits, a number sign and the semicolon do, so that texts
that go on alike behind an ampersand start the same reference.
-/

namespace Canonmark

namespace Entity

def isReferenceChar (c : Char) : Bool := Ascii.isLetterOrDigit c || c = '#' || c = ';'

/-- Whether no ampersand of a text starts a reference. -/
def absent : Text → Bool
  | [] => true
  | c :: rest => (c ≠ '&' || (reference? rest).isNone) && absent rest

theorem numeric?_eq (p : Char → Bool) (limit : Nat) (value : Text → Nat) (text : Text) :
    numeric? p limit value text =
      (let digits := (text.take limit).takeWhile p
       if digits ≠ [] ∧ (text.drop digits.length).head? = some ';' then
         some (digits.length + 1, [ofCodePoint (value digits)])
       else none) := by
  simp only [numeric?, List.isEmpty_iff]
  by_cases hnone : (text.take limit).takeWhile p = []
  · simp [hnone]
  · rw [if_neg hnone]
    split
    · rename_i hclosed
      simp [hnone, hclosed]
    · rename_i hopen
      rw [if_neg]
      rintro ⟨-, hclosed⟩
      obtain ⟨rest, hclosed⟩ := List.head?_eq_some_iff.mp hclosed
      exact hopen rest hclosed

theorem reference?_named {text : Text} (h : text.head? ≠ some '#') :
    reference? text =
      (let name := text.takeWhile Ascii.isLetterOrDigit
       if (text.drop name.length).head? = some ';' then
         (named? name).map fun value => (name.length + 1, value)
       else none) := by
  rw [reference?.eq_def]
  split
  · exact absurd rfl h
  · exact absurd rfl h
  · exact absurd rfl h
  · simp only
    split
    · rename_i hclosed
      simp [hclosed]
    · rename_i hopen
      rw [if_neg]
      intro hclosed
      obtain ⟨rest, hclosed⟩ := List.head?_eq_some_iff.mp hclosed
      exact hopen rest hclosed

variable {a b : Text}

theorem takeWhile_take_append {p : Char → Bool} (hends : ∀ c ∈ b.head?, p c = false)
    (limit : Nat) : ((a ++ b).take limit).takeWhile p = (a.take limit).takeWhile p := by
  induction a generalizing limit with
  | nil =>
      cases limit with
      | zero => rfl
      | succ limit =>
          cases b with
          | nil => rfl
          | cons c b => simp [hends c rfl]
  | cons c a ih =>
      cases limit with
      | zero => rfl
      | succ limit => simp only [List.cons_append, List.take_succ_cons, List.takeWhile_cons, ih]

/-- A semicolon that ends a reference in `a ++ b` stands in `a`, if none is in front of `b`. -/
theorem semicolon_append (hclosed : ∀ c ∈ b.head?, c ≠ ';') {n : Nat} (hshort : n ≤ a.length) :
    ((a ++ b).drop n).head? = some ';' ↔ (a.drop n).head? = some ';' := by
  rw [List.drop_append_of_le_length hshort, List.head?_append]
  cases (a.drop n).head? with
  | none =>
      simp only [Option.none_or, reduceCtorEq, iff_false]
      exact fun h => hclosed ';' h rfl
  | some c => rfl

theorem numeric?_append {p : Char → Bool} (hends : ∀ c ∈ b.head?, p c = false)
    (hclosed : ∀ c ∈ b.head?, c ≠ ';') (limit : Nat) (value : Text → Nat) :
    numeric? p limit value (a ++ b) = numeric? p limit value a := by
  have hshort : ((a.take limit).takeWhile p).length ≤ a.length :=
    (List.takeWhile_sublist p |>.trans (List.take_sublist limit a)).length_le
  simp only [numeric?_eq, takeWhile_take_append hends, semicolon_append hclosed hshort]

theorem not_of_isReferenceChar {c : Char} (h : isReferenceChar c = false) :
    Ascii.isLetterOrDigit c = false ∧ c ≠ '#' ∧ c ≠ ';' := by
  simpa [isReferenceChar, and_assoc] using h

theorem isLetterOrDigit_of_isHexDigit {c : Char} (h : Ascii.isHexDigit c = true) :
    Ascii.isLetterOrDigit c = true := by
  simp only [Ascii.isHexDigit, Ascii.isLetterOrDigit, Ascii.isLetter, Bool.or_eq_true,
    Bool.and_eq_true, decide_eq_true_eq] at h ⊢
  rcases h with (h | ⟨hlow, hhigh⟩) | ⟨hlow, hhigh⟩
  · exact .inr h
  · exact .inl (.inl ⟨hlow, Char.le_trans hhigh (by decide)⟩)
  · exact .inl (.inr ⟨hlow, Char.le_trans hhigh (by decide)⟩)

theorem reference?_append (hends : ∀ c ∈ b.head?, isReferenceChar c = false) :
    reference? (a ++ b) = reference? a := by
  have hclosed : ∀ c ∈ b.head?, c ≠ ';' := fun c hmem => (not_of_isReferenceChar (hends c hmem)).2.2
  have halphanumeric : ∀ c ∈ b.head?, Ascii.isLetterOrDigit c = false := fun c hmem =>
    (not_of_isReferenceChar (hends c hmem)).1
  have hdecimal : ∀ c ∈ b.head?, Ascii.isDigit c = false := fun c hmem =>
    (Bool.or_eq_false_iff.mp (halphanumeric c hmem)).2
  have hhexadecimal : ∀ c ∈ b.head?, Ascii.isHexDigit c = false := fun c hmem =>
    Bool.eq_false_iff.mpr fun h =>
      Bool.false_ne_true ((halphanumeric c hmem).symm.trans (isLetterOrDigit_of_isHexDigit h))
  by_cases hsign : a.head? = some '#'
  · obtain ⟨a, rfl⟩ := List.head?_eq_some_iff.mp hsign
    have hdigits := numeric?_append (a := a) hdecimal hclosed 7 Ascii.decimal
    cases a with
    | nil =>
        cases b with
        | nil => rfl
        | cons c b =>
            have hletter := halphanumeric c rfl
            rw [List.cons_append, List.nil_append, reference?.eq_3, reference?.eq_3]
            · exact congrArg (Option.map (reference?.skip 1)) hdigits
            · rintro rest ⟨⟩
            · rintro rest ⟨⟩
            · rintro rest ⟨⟩
              exact absurd hletter (by decide)
            · rintro rest ⟨⟩
              exact absurd hletter (by decide)
    | cons c a =>
        have hhex := numeric?_append (a := a) hhexadecimal hclosed 6 Ascii.hexadecimal
        by_cases hlower : c = 'x'
        · subst hlower
          exact congrArg (Option.map (reference?.skip 2)) hhex
        · by_cases hupper : c = 'X'
          · subst hupper
            exact congrArg (Option.map (reference?.skip 2)) hhex
          · have hnone : ∀ d, (d = 'x' ∨ d = 'X') → ∀ text rest : Text, c :: text ≠ d :: rest := by
              rintro d h text rest ⟨⟩
              rcases h with h | h
              · exact hlower h
              · exact hupper h
            rw [List.cons_append, List.cons_append, reference?.eq_3, reference?.eq_3]
            · exact congrArg (Option.map (reference?.skip 1)) hdigits
            all_goals
              intro rest
              apply hnone
              simp
  · have hsign' : (a ++ b).head? ≠ some '#' := by
      rw [List.head?_append]
      cases h : a.head? with
      | none => exact fun hmem => (not_of_isReferenceChar (hends '#' hmem)).2.1 rfl
      | some c => rwa [h] at hsign
    have hshort : (a.takeWhile Ascii.isLetterOrDigit).length ≤ a.length :=
      (List.takeWhile_sublist _).length_le
    have hname : (a ++ b).takeWhile Ascii.isLetterOrDigit = a.takeWhile Ascii.isLetterOrDigit := by
      have hall := takeWhile_take_append (a := a) halphanumeric (a ++ b).length
      rwa [List.take_length, List.take_of_length_le (by simp)] at hall
    simp only [reference?_named hsign, reference?_named hsign', hname,
      semicolon_append hclosed hshort]

theorem reference?_congr (h : a.takeWhile isReferenceChar = b.takeWhile isReferenceChar) :
    reference? a = reference? b := by
  have hcut : ∀ text : Text, reference? (text.takeWhile isReferenceChar) = reference? text := by
    intro text
    have hwhole : text.takeWhile isReferenceChar ++ text.dropWhile isReferenceChar = text :=
      List.takeWhile_append_dropWhile
    refine Eq.trans ?_ (congrArg reference? hwhole)
    refine (reference?_append fun c hmem => ?_).symm
    have := List.head?_dropWhile_not isReferenceChar text
    rw [Option.mem_def.mp hmem] at this
    simpa using this
  rw [← hcut a, h, hcut b]

end Entity

end Canonmark
