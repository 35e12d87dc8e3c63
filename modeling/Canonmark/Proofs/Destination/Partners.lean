import Canonmark.Proofs.Destination.Safe

/-!
# Parentheses and their partners

A text falls into balanced parts, in which all parentheses have partners. Between the parts stand
closing parentheses and, behind these, opening ones. They have no partners, and they are what one
pass over the text finds.
-/

namespace Canonmark.Parentheses

def IsParenthesis (text : Text) (i : Nat) : Prop := text[i]? = some '(' ∨ text[i]? = some ')'

theorem IsParenthesis.lt {text : Text} {i : Nat} (h : IsParenthesis text i) : i < text.length := by
  rcases h with h | h <;> exact (List.getElem?_eq_some_iff.mp h).1

theorem isParenthesis_cons {c : Char} {rest : Text} {i : Nat} :
    IsParenthesis (c :: rest) i ↔
      (i = 0 ∧ (c = '(' ∨ c = ')')) ∨ ∃ k, i = k + 1 ∧ IsParenthesis rest k := by
  cases i with
  | zero => simp [IsParenthesis]
  | succ i => simp [IsParenthesis]

theorem isParenthesis_append {front behind : Text} {i : Nat} :
    IsParenthesis (front ++ behind) i ↔
      IsParenthesis front i ∨ ∃ k, i = front.length + k ∧ IsParenthesis behind k := by
  constructor
  · intro h
    rcases Nat.lt_or_ge i front.length with hlt | hge
    · rw [IsParenthesis, List.getElem?_append_left hlt] at h
      exact .inl h
    · rw [IsParenthesis, List.getElem?_append_right hge] at h
      exact .inr ⟨_, (Nat.add_sub_cancel' hge).symm, h⟩
  · rintro (h | ⟨k, rfl, h⟩)
    · rwa [IsParenthesis, List.getElem?_append_left h.lt]
    · rwa [IsParenthesis, List.getElem?_append_right (Nat.le_add_right _ _),
        Nat.add_sub_cancel_left]

theorem isParenthesis_append_cons {part behind : Text} {c : Char} {i : Nat} :
    IsParenthesis (part ++ c :: behind) i ↔ IsParenthesis part i ∨
      (i = part.length ∧ (c = '(' ∨ c = ')')) ∨
        ∃ k, i = part.length + 1 + k ∧ IsParenthesis behind k := by
  rw [isParenthesis_append]
  refine or_congr_right ⟨?_, ?_⟩
  · rintro ⟨k, rfl, hhere⟩
    rcases isParenthesis_cons.mp hhere with ⟨rfl, his⟩ | ⟨k, rfl, hlater⟩
    · exact .inl ⟨rfl, his⟩
    · exact .inr ⟨k, by omega, hlater⟩
  · rintro (⟨rfl, his⟩ | ⟨k, rfl, hlater⟩)
    · exact ⟨0, rfl, isParenthesis_cons.mpr (.inl ⟨rfl, his⟩)⟩
    · exact ⟨k + 1, by omega, isParenthesis_cons.mpr (.inr ⟨k, rfl, hlater⟩)⟩

/-- An opening parenthesis and a closing one behind it, with balanced ones between them. -/
def Partners (text : Text) (i j : Nat) : Prop :=
  ∃ front inner behind, text = front ++ '(' :: (inner ++ ')' :: behind) ∧ Balanced inner ∧
    i = front.length ∧ j = front.length + (inner.length + 1)

def HasPartner (text : Text) (i : Nat) : Prop := ∃ j, Partners text i j ∨ Partners text j i

theorem Partners.within {text : Text} {i j : Nat} (h : Partners text i j) (before after : Text) :
    Partners (before ++ (text ++ after)) (before.length + i) (before.length + j) := by
  obtain ⟨front, inner, behind, rfl, hbalanced, rfl, rfl⟩ := h
  exact ⟨before ++ front, inner, behind ++ after, by simp, hbalanced, by simp,
    by simp [Nat.add_assoc]⟩

theorem HasPartner.within {text : Text} {i : Nat} (h : HasPartner text i) (before after : Text) :
    HasPartner (before ++ (text ++ after)) (before.length + i) := by
  obtain ⟨j, h⟩ := h
  exact ⟨before.length + j, h.imp (·.within before after) (·.within before after)⟩

theorem Balanced.hasPartner {text : Text} (h : Balanced text) {i : Nat}
    (hparenthesis : IsParenthesis text i) : HasPartner text i := by
  induction h generalizing i with
  | nil => exact absurd hparenthesis.lt (Nat.not_lt_zero i)
  | @plain c rest hopens hcloses _ ih =>
      rcases isParenthesis_cons.mp hparenthesis with ⟨-, his⟩ | ⟨k, rfl, hlater⟩
      · exact absurd his (not_or.mpr ⟨hopens, hcloses⟩)
      · simpa [Nat.add_comm] using (ih hlater).within [c] []
  | @pair inner rest hbalanced _ ihInner ihRest =>
      have hpair : Partners ('(' :: inner ++ ')' :: rest) 0 (inner.length + 1) :=
        ⟨[], inner, rest, rfl, hbalanced, rfl, by simp⟩
      rw [List.cons_append] at hparenthesis
      rcases isParenthesis_cons.mp hparenthesis with ⟨rfl, -⟩ | ⟨k, rfl, hbehind⟩
      · exact ⟨_, .inl hpair⟩
      rcases isParenthesis_append_cons.mp hbehind with hinside | ⟨rfl, -⟩ | ⟨k, rfl, hlater⟩
      · simpa [Nat.add_comm] using (ihInner hinside).within ['('] (')' :: rest)
      · exact ⟨_, .inr hpair⟩
      · simpa [Nat.add_comm, Nat.add_left_comm] using
          (ihRest hlater).within ('(' :: inner ++ [')']) []

theorem Balanced.append {text behind : Text} (h : Balanced text) (hlater : Balanced behind) :
    Balanced (text ++ behind) := by
  induction h with
  | nil => exact hlater
  | plain hopens hcloses _ ih => exact .plain hopens hcloses ih
  | pair hinner _ _ ih => simpa using Balanced.pair hinner ih

/-- A text that starts at `start`, in balanced parts with parentheses at `found` between them. -/
inductive Parted : (start : Nat) → (found : List Nat) → Text → Prop
  | last {start : Nat} {part : Text} : Balanced part → Parted start [] part
  | mark {start : Nat} {c : Char} {part behind : Text} {found : List Nat} :
      c = '(' ∨ c = ')' → Balanced part → Parted (start + part.length + 1) found behind →
      Parted start ((start + part.length) :: found) (part ++ c :: behind)

namespace Parted

variable {start : Nat} {found : List Nat} {text : Text}

theorem isParenthesis (h : Parted start found text) {i : Nat} (hmem : i ∈ found) :
    ∃ k, i = start + k ∧ IsParenthesis text k := by
  induction h with
  | last => exact absurd hmem List.not_mem_nil
  | mark his _ _ ih =>
      rcases List.mem_cons.mp hmem with rfl | hmem
      · exact ⟨_, rfl, isParenthesis_append_cons.mpr (.inr (.inl ⟨rfl, his⟩))⟩
      · obtain ⟨k, rfl, hlater⟩ := ih hmem
        exact ⟨_, by omega, isParenthesis_append_cons.mpr (.inr (.inr ⟨k, rfl, hlater⟩))⟩

theorem le_of_mem (h : Parted start found text) {i : Nat} (hmem : i ∈ found) : start ≤ i := by
  obtain ⟨k, rfl, -⟩ := h.isParenthesis hmem
  exact Nat.le_add_right start k

theorem ascending (h : Parted start found text) : found.Pairwise (· < ·) := by
  induction h with
  | last => exact .nil
  | mark _ _ hlater ih => exact .cons (fun i hmem => hlater.le_of_mem hmem) ih

theorem hasPartner (h : Parted start found text) {k : Nat} (hparenthesis : IsParenthesis text k) :
    start + k ∈ found ∨ HasPartner text k := by
  induction h generalizing k with
  | last hpart => exact .inr (hpart.hasPartner hparenthesis)
  | @mark start c part behind found _ hbalanced _ ih =>
      rcases isParenthesis_append_cons.mp hparenthesis with hinside | ⟨rfl, -⟩ | ⟨k, rfl, hlater⟩
      · exact .inr (by simpa using (hbalanced.hasPartner hinside).within [] (c :: behind))
      · exact .inl List.mem_cons_self
      · refine (ih hlater).imp (fun hmem => ?_) fun hpartner => ?_
        · exact List.mem_cons_of_mem _ (by simpa [Nat.add_assoc] using hmem)
        · simpa using hpartner.within (part ++ [c]) []

end Parted

/--
A text that starts at `start`, in balanced parts. Between them stand closing parentheses at
`closed` and, behind these, opening ones at `opened`.
-/
inductive LeftOver : (start : Nat) → (closed opened : List Nat) → Text → Prop
  | last {start : Nat} {part : Text} : Balanced part → LeftOver start [] [] part
  | opening {start : Nat} {part behind : Text} {opened : List Nat} : Balanced part →
      LeftOver (start + part.length + 1) [] opened behind →
      LeftOver start [] ((start + part.length) :: opened) (part ++ '(' :: behind)
  | closing {start : Nat} {part behind : Text} {closed opened : List Nat} : Balanced part →
      LeftOver (start + part.length + 1) closed opened behind →
      LeftOver start ((start + part.length) :: closed) opened (part ++ ')' :: behind)

namespace LeftOver

variable {start : Nat} {closed opened : List Nat} {text : Text}

theorem parted (h : LeftOver start closed opened text) : Parted start (closed ++ opened) text := by
  induction h with
  | last hpart => exact .last hpart
  | opening hpart _ ih => exact .mark (.inl rfl) hpart ih
  | closing hpart _ ih => exact .mark (.inr rfl) hpart ih

theorem prepend {front : Text} (hbalanced : Balanced front)
    (h : LeftOver (start + front.length) closed opened text) :
    LeftOver start closed opened (front ++ text) := by
  have hplace (part : Text) :
      start + front.length + part.length = start + (front ++ part).length := by
    rw [List.length_append, Nat.add_assoc]
  cases h with
  | last hpart => exact .last (hbalanced.append hpart)
  | opening hpart hlater =>
      rw [hplace] at hlater ⊢
      rw [← List.append_assoc]
      exact .opening (hbalanced.append hpart) hlater
  | closing hpart hlater =>
      rw [hplace] at hlater ⊢
      rw [← List.append_assoc]
      exact .closing (hbalanced.append hpart) hlater

theorem exists_leftOver (start : Nat) (text : Text) :
    ∃ closed opened, LeftOver start closed opened text := by
  induction text generalizing start with
  | nil => exact ⟨[], [], .last .nil⟩
  | cons c rest ih =>
      obtain ⟨closed, opened, h⟩ := ih (start + 1)
      by_cases hopens : c = '('
      · subst hopens
        cases h with
        | last hpart => exact ⟨_, _, .opening .nil (.last hpart)⟩
        | opening hpart hlater => exact ⟨_, _, .opening .nil (.opening hpart hlater)⟩
        | @closing _ part behind closed _ hbalanced hlater =>
            have hpair := Balanced.pair hbalanced .nil
            have hrest : LeftOver (start + ('(' :: part ++ [')']).length) closed opened behind := by
              simpa [Nat.add_assoc, Nat.add_comm, Nat.add_left_comm] using hlater
            exact ⟨_, _, by simpa using hrest.prepend hpair⟩
      · by_cases hcloses : c = ')'
        · subst hcloses
          exact ⟨_, _, .closing .nil h⟩
        · exact ⟨_, _, h.prepend (.plain hopens hcloses .nil)⟩

end LeftOver

theorem unmatchedFrom_opening (position : Nat) (opened : List Nat) (rest : Text) :
    unmatchedFrom position opened ('(' :: rest) =
      unmatchedFrom (position + 1) (position :: opened) rest := rfl

theorem unmatchedFrom_closing (position latest : Nat) (opened : List Nat) (rest : Text) :
    unmatchedFrom position (latest :: opened) (')' :: rest) =
      unmatchedFrom (position + 1) opened rest := rfl

theorem unmatchedFrom_closing_nil (position : Nat) (rest : Text) :
    unmatchedFrom position [] (')' :: rest) =
      position :: unmatchedFrom (position + 1) [] rest := rfl

theorem unmatchedFrom_plain {c : Char} (hopens : c ≠ '(') (hcloses : c ≠ ')') (position : Nat)
    (opened : List Nat) (rest : Text) :
    unmatchedFrom position opened (c :: rest) = unmatchedFrom (position + 1) opened rest := by
  simp only [unmatchedFrom, if_neg hopens, if_neg hcloses]

theorem Balanced.unmatchedFrom_append {part : Text} (h : Balanced part) (position : Nat)
    (opened : List Nat) (behind : Text) :
    unmatchedFrom position opened (part ++ behind) =
      unmatchedFrom (position + part.length) opened behind := by
  induction h generalizing position opened behind with
  | nil => rfl
  | @plain c rest hopens hcloses _ ih =>
      rw [List.cons_append, unmatchedFrom_plain hopens hcloses, ih, List.length_cons]
      congr 1
      omega
  | @pair inner rest _ _ ihInner ihRest =>
      rw [List.append_assoc, List.cons_append, List.cons_append, unmatchedFrom_opening, ihInner,
        unmatchedFrom_closing, ihRest]
      congr 1
      simp only [List.length_append, List.length_cons]
      omega

/--
The invariant of the pass: the closing parentheses that are left over have been found, and the
opening ones are open, the latest first.
-/
theorem LeftOver.unmatchedFrom_append {start : Nat} {closed opened pending : List Nat}
    {text : Text} (h : LeftOver start closed opened text) (honly : closed = [] ∨ pending = [])
    (behind : Text) :
    unmatchedFrom start pending (text ++ behind) =
      closed ++ unmatchedFrom (start + text.length) (opened.reverse ++ pending) behind := by
  induction h generalizing pending with
  | last hpart => exact hpart.unmatchedFrom_append _ _ _
  | opening hbalanced _ ih =>
      rw [List.append_assoc, hbalanced.unmatchedFrom_append, List.cons_append,
        unmatchedFrom_opening, ih (.inl rfl)]
      simp [Nat.add_assoc, Nat.add_comm, Nat.add_left_comm]
  | closing hbalanced _ ih =>
      obtain rfl := honly.resolve_left (List.cons_ne_nil _ _)
      rw [List.append_assoc, hbalanced.unmatchedFrom_append, List.cons_append,
        unmatchedFrom_closing_nil, ih (.inr rfl)]
      simp [Nat.add_assoc, Nat.add_comm, Nat.add_left_comm]

theorem LeftOver.unmatched_eq {closed opened : List Nat} {text : Text}
    (h : LeftOver 0 closed opened text) : unmatched text = closed ++ opened := by
  have hscan := h.unmatchedFrom_append (.inr (rfl : [] = [])) []
  simpa [unmatched, unmatchedFrom] using hscan

theorem Partners.not_mem_unmatched {text : Text} {i j : Nat} (h : Partners text i j) :
    i ∉ unmatched text ∧ j ∉ unmatched text := by
  obtain ⟨front, inner, behind, rfl, hbalanced, rfl, rfl⟩ := h
  obtain ⟨closed, opened, hleftOver⟩ := LeftOver.exists_leftOver 0 front
  have hscan : unmatched (front ++ '(' :: (inner ++ ')' :: behind)) =
      closed ++ unmatchedFrom (front.length + 1 + inner.length + 1) opened.reverse behind := by
    rw [unmatched, hleftOver.unmatchedFrom_append (.inr rfl), Nat.zero_add, List.append_nil,
      unmatchedFrom_opening, hbalanced.unmatchedFrom_append, unmatchedFrom_closing]
  have hbefore {k : Nat} (hmem : k ∈ closed ++ opened) : k < front.length := by
    obtain ⟨k, rfl, hparenthesis⟩ := hleftOver.parted.isParenthesis hmem
    simpa using hparenthesis.lt
  have houtside {k : Nat} (hmem : k ∈ unmatched (front ++ '(' :: (inner ++ ')' :: behind))) :
      k < front.length ∨ front.length + (inner.length + 1) < k := by
    rw [hscan] at hmem
    rcases List.mem_append.mp hmem with hmem | hmem
    · exact .inl (hbefore (List.mem_append_left _ hmem))
    · rcases mem_unmatchedFrom hmem with hmem | hle
      · exact .inl (hbefore (List.mem_append_right _ (List.mem_reverse.mp hmem)))
      · exact .inr (by omega)
  constructor
  · intro hmem
    have := houtside hmem
    omega
  · intro hmem
    have := houtside hmem
    omega

theorem mem_unmatched_iff {text : Text} {i : Nat} :
    i ∈ unmatched text ↔ IsParenthesis text i ∧ ¬HasPartner text i := by
  obtain ⟨closed, opened, hleftOver⟩ := LeftOver.exists_leftOver 0 text
  constructor
  · intro hmem
    have hplace := hleftOver.unmatched_eq ▸ hmem
    obtain ⟨k, rfl, hparenthesis⟩ := hleftOver.parted.isParenthesis hplace
    rw [Nat.zero_add] at hmem ⊢
    refine ⟨hparenthesis, ?_⟩
    rintro ⟨j, hpartners | hpartners⟩
    · exact hpartners.not_mem_unmatched.1 hmem
    · exact hpartners.not_mem_unmatched.2 hmem
  · rintro ⟨hparenthesis, halone⟩
    rw [hleftOver.unmatched_eq]
    simpa using (hleftOver.parted.hasPartner hparenthesis).resolve_right halone

end Canonmark.Parentheses
