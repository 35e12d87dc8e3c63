import Canonmark.Proofs.Destination.Partners
import Canonmark.Proofs.Text.Bytes
import Mathlib.Order.Bounds.Defs

/-!
# Unmatched parentheses

Without its unmatched parentheses a text is balanced, and no fewer can be taken away to that end:
in the front half of the text closing ones are in excess, behind it opening ones. Bytes are a text
too, when each is taken for a character, and the bytes of a text have the same unmatched
parentheses as its characters.
-/

namespace Canonmark.Parentheses

theorem Parted.balanced_without {start : Nat} {found dropped : List Nat} {text : Text}
    (h : Parted start found text) (hsame : ∀ i, start ≤ i → (i ∈ dropped ↔ i ∈ found)) :
    Balanced (Text.without dropped start text) := by
  induction h with
  | last hpart =>
      rwa [Text.without_eq_self fun k _ hmem => ?_]
      exact absurd ((hsame _ (Nat.le_add_right _ _)).mp hmem) List.not_mem_nil
  | @mark start c part behind found _ hbalanced hlater ih =>
      have hkept : ∀ k < part.length, start + k ∉ dropped := by
        intro k hlt hmem
        rcases List.mem_cons.mp ((hsame _ (Nat.le_add_right _ _)).mp hmem) with heq | hmem
        · omega
        · have := hlater.le_of_mem hmem
          omega
      have hgone : start + part.length ∈ dropped :=
        (hsame _ (Nat.le_add_right _ _)).mpr List.mem_cons_self
      rw [Text.without_append, Text.without_eq_self hkept, Text.without, if_pos hgone]
      refine hbalanced.append (ih fun i hle => ?_)
      rw [hsame i (by omega), List.mem_cons, or_iff_right (by omega)]

theorem Balanced.count_eq {text : Text} (h : Balanced text) : text.count '(' = text.count ')' := by
  induction h with
  | nil => rfl
  | plain hopens hcloses _ ih =>
      rw [List.count_cons_of_ne hopens, List.count_cons_of_ne hcloses, ih]
  | pair _ _ ihInner ihRest =>
      simp [List.count_append]
      omega

theorem count_closing_le {nesting : Nat} {front behind : Text}
    (h : balanced nesting (front ++ behind) = true) :
    front.count ')' ≤ nesting + front.count '(' := by
  induction front generalizing nesting with
  | nil => exact Nat.zero_le _
  | cons c rest ih =>
      by_cases hopens : c = '('
      · subst hopens
        have hlater := @ih (nesting + 1) h
        rw [List.count_cons_self, List.count_cons_of_ne (by decide)]
        omega
      · by_cases hcloses : c = ')'
        · subst hcloses
          have hstep : (0 < nesting && balanced (nesting - 1) (rest ++ behind)) = true := h
          obtain ⟨hpos, hlater⟩ := Bool.and_eq_true_iff.mp hstep
          have := ih hlater
          have := of_decide_eq_true hpos
          rw [List.count_cons_self, List.count_cons_of_ne (by decide)]
          omega
        · rw [List.cons_append, balanced_cons hopens hcloses] at h
          rw [List.count_cons_of_ne hopens, List.count_cons_of_ne hcloses]
          exact ih h

theorem Balanced.count_le {front behind : Text} (h : Balanced (front ++ behind)) :
    front.count ')' ≤ front.count '(' ∧ behind.count '(' ≤ behind.count ')' := by
  have hbefore := count_closing_le (balanced_iff.mpr h)
  have hwhole := h.count_eq
  rw [List.count_append, List.count_append] at hwhole
  omega

namespace LeftOver

variable {start : Nat} {closed opened : List Nat} {text : Text}

theorem count_eq (h : LeftOver start closed opened text) :
    text.count '(' + closed.length = text.count ')' + opened.length := by
  induction h with
  | last hpart => rw [hpart.count_eq]
  | opening hpart _ ih =>
      have := hpart.count_eq
      simp [List.count_append] at ih ⊢
      omega
  | closing hpart _ ih =>
      have := hpart.count_eq
      simp [List.count_append] at ih ⊢
      omega

theorem exists_halves (h : LeftOver start closed opened text) :
    ∃ front behind, text = front ++ behind ∧
      front.count ')' = front.count '(' + closed.length ∧
      behind.count '(' = behind.count ')' + opened.length := by
  induction h with
  | @last _ part hbalanced => exact ⟨[], part, rfl, rfl, hbalanced.count_eq⟩
  | opening hpart hlater =>
      have hwhole := (LeftOver.opening hpart hlater).count_eq
      exact ⟨[], _, rfl, rfl, by simpa using hwhole⟩
  | @closing _ part _ _ _ hbalanced _ ih =>
      obtain ⟨front, behind, rfl, hbefore, hafter⟩ := ih
      have := hbalanced.count_eq
      refine ⟨part ++ ')' :: front, behind, by simp, ?_, hafter⟩
      simp [List.count_append]
      omega

theorem length_le {dropped : List Nat} (h : LeftOver start closed opened text)
    (hbalanced : Balanced (Text.without dropped 0 text)) :
    closed.length + opened.length ≤ dropped.length := by
  obtain ⟨front, behind, rfl, hbefore, hafter⟩ := h.exists_halves
  have htaken := Text.length_le_without dropped 0 (front ++ behind)
  have hall : dropped.countP (0 ≤ ·) ≤ dropped.length := List.countP_le_length
  obtain ⟨first, second, hkept, hinFront, hinBehind⟩ :=
    List.sublist_append_iff.mp (Text.without_sublist dropped 0 (front ++ behind))
  rw [hkept] at hbalanced htaken
  rw [List.length_append, List.length_append] at htaken
  obtain ⟨hclosings, hopenings⟩ := hbalanced.count_le
  -- In each half no more parentheses of a kind go away than characters.
  have hlostFront := hinFront.le_count ')'
  have hlostBehind := hinBehind.le_count '('
  have hkeptFront := hinFront.count_le '('
  have hkeptBehind := hinBehind.count_le ')'
  have hshorterFront := hinFront.length_le
  have hshorterBehind := hinBehind.length_le
  omega

end LeftOver

theorem Balanced.of_plain {text : Text} (h : ∀ c ∈ text, c ≠ '(' ∧ c ≠ ')') : Balanced text := by
  induction text with
  | nil => exact .nil
  | cons c rest ih =>
      obtain ⟨⟨hopens, hcloses⟩, hlater⟩ := List.forall_mem_cons.mp h
      exact .plain hopens hcloses (ih hlater)

theorem balanced_spread {c : Char} (hopens : c ≠ '(') (hcloses : c ≠ ')') :
    Balanced (Text.spread c) := by
  refine .of_plain fun byte hmem => ⟨?_, ?_⟩
  · rintro rfl
    exact hopens (Text.eq_of_mem_spread (by decide) hmem).symm
  · rintro rfl
    exact hcloses (Text.eq_of_mem_spread (by decide) hmem).symm

theorem unmatchedFrom_bytewise {whole front behind : Text} (hsplit : whole = front ++ behind)
    (opened : List Nat) :
    unmatchedFrom (Text.bytewise front).length (opened.map (Text.byteOffset whole))
        (Text.bytewise behind) =
      (unmatchedFrom front.length opened behind).map (Text.byteOffset whole) := by
  induction behind generalizing front opened with
  | nil => simp [unmatchedFrom]
  | cons c rest ih =>
      have hhere : Text.byteOffset whole front.length = (Text.bytewise front).length := by
        rw [hsplit, Text.byteOffset_length]
      have hlater := @ih (front ++ [c]) (by simpa using hsplit)
      rw [List.length_append, List.length_singleton, Text.bytewise_append, List.length_append,
        Text.bytewise_cons, Text.bytewise_nil, List.append_nil] at hlater
      rw [Text.bytewise_cons]
      by_cases hopens : c = '('
      · subst hopens
        have hnext := hlater (front.length :: opened)
        rwa [List.map_cons, hhere] at hnext
      · by_cases hcloses : c = ')'
        · subst hcloses
          cases opened with
          | nil =>
              have hnext := hlater []
              rw [unmatchedFrom_closing_nil, List.map_cons, hhere, ← hnext]
              rfl
          | cons latest opened => exact hlater opened
        · rw [(balanced_spread hopens hcloses).unmatchedFrom_append, hlater opened,
            unmatchedFrom_plain hopens hcloses]

theorem unmatched_bytewise (text : Text) :
    unmatched text.bytewise = (unmatched text).map text.byteOffset :=
  @unmatchedFrom_bytewise text [] text rfl []

/--
The parentheses that are found are those without a partner, each once, and to take them away is
the least that leaves balanced ones. It makes no difference whether characters or bytes are read.
-/
theorem unmatched_exact (text : Text) :
    (∀ i, i ∈ unmatched text ↔ IsParenthesis text i ∧ ¬HasPartner text i) ∧
      (unmatched text).Nodup ∧
      IsLeast {n | ∃ removed : List Nat, removed.Nodup ∧ removed.length = n ∧
        (∀ i ∈ removed, IsParenthesis text i) ∧ Balanced (Text.without removed 0 text)}
        (unmatched text).length ∧
      unmatched text.bytewise = (unmatched text).map text.byteOffset := by
  obtain ⟨closed, opened, hleftOver⟩ := LeftOver.exists_leftOver 0 text
  have hfound := hleftOver.unmatched_eq
  have hdistinct : (unmatched text).Nodup := by
    rw [hfound]
    exact hleftOver.parted.ascending.imp Nat.ne_of_lt
  refine ⟨fun i => mem_unmatched_iff, hdistinct, ⟨?_, ?_⟩, unmatched_bytewise text⟩
  · refine ⟨unmatched text, hdistinct, rfl, fun i hmem => (mem_unmatched_iff.mp hmem).1, ?_⟩
    exact hleftOver.parted.balanced_without fun i _ => by rw [hfound]
  · rintro n ⟨removed, -, rfl, -, hbalanced⟩
    rw [hfound, List.length_append]
    exact hleftOver.length_le hbalanced

example : unmatched "a)(b(c)".toList = [1, 2] := by decide

end Canonmark.Parentheses
