import Canonmark.Proofs.Destination.Woven
import Canonmark.Source.Container

/-!
# Two sides of a marked text

A marked text is read with and without its marks. As long as the automaton has not passed `](` on
a line, readers find the same characters on both sides, and what they leave is again a marked text.
-/

namespace Canonmark

open Source (countWhile)

namespace Marked

def side (wrapped : Bool) (marked : Marked) : Text := if wrapped then marked.text else marked.kept

theorem side_true (marked : Marked) : side true marked = marked.text := rfl

theorem side_false (marked : Marked) : side false marked = marked.kept := rfl

@[simp] theorem side_nil (wrapped : Bool) : side wrapped [] = [] := by cases wrapped <;> rfl

@[simp] theorem side_cons_false (wrapped : Bool) (c : Char) (marked : Marked) :
    side wrapped ((c, false) :: marked) = c :: side wrapped marked := by
  cases wrapped <;> rfl

@[simp] theorem side_cons_wrapped (c : Char) (marked : Marked) :
    side true ((c, true) :: marked) = c :: side true marked := rfl

@[simp] theorem side_cons_kept (c : Char) (marked : Marked) :
    side false ((c, true) :: marked) = side false marked := rfl

@[simp] theorem side_append (wrapped : Bool) (first second : Marked) :
    side wrapped (first ++ second) = side wrapped first ++ side wrapped second := by
  cases wrapped <;> simp [side]

@[simp] theorem side_plain (wrapped : Bool) (text : Text) : side wrapped (plain text) = text := by
  cases wrapped <;> simp [side]

end Marked

namespace SpacedDestination

/-- A marked text in front of which no bracket can be due. -/
def Ready (marked : Marked) : Prop := Woven (.plain false) marked

theorem Ready.nil : Ready [] := (Woven.nil_iff _).mpr trivial

/-- Brackets are inserted in two phases only. -/
theorem Woven.cases {phase : Phase} {marked : Marked} (h : Woven phase marked)
    (hgap : phase ≠ .gap) (hinside : phase ≠ .inside false) :
    marked = [] ∨ ∃ (c : Char) (rest : Marked), marked = (c, false) :: rest ∧ phase.Accepts c ∧
      Woven (phase.next c) rest := by
  cases marked with
  | nil => exact .inl rfl
  | cons mark rest =>
      obtain ⟨c, inserted⟩ := mark
      cases inserted with
      | true =>
          rcases h.cons_true with ⟨h, -⟩ | ⟨h, -⟩
          · exact absurd h hgap
          · exact absurd h hinside
      | false => exact .inr ⟨c, rest, rfl, (Woven.cons_false_iff _ _ _).mp h⟩

theorem Ready.cases {marked : Marked} (h : Ready marked) :
    marked = [] ∨ ∃ (c : Char) (rest : Marked), marked = (c, false) :: rest ∧ c ≠ '\r' ∧
      Woven (Phase.next c (.plain false)) rest :=
  Woven.cases h (by simp) (by simp)

theorem Ready.tail {c : Char} {rest : Marked} (h : Ready ((c, false) :: rest))
    (hback : c ≠ '\\') (hbracket : c ≠ ']') : Ready rest := by
  obtain ⟨-, hrest⟩ := (Woven.cons_false_iff _ _ _).mp h
  by_cases hangle : c = '<'
  · subst hangle
    exact @Woven.of_closed (.plain false) trivial _ hrest
  · by_cases hn : c = '\n'
    · subst hn
      exact hrest
    · simpa [Ready, Phase.next, Phase.behind, hn, hback, hbracket, hangle] using hrest

theorem Ready.behind_bracket {c : Char} {rest : Marked} (h : Woven .bracket ((c, false) :: rest))
    (hc : c ≠ '(') : Ready ((c, false) :: rest) := by
  obtain ⟨haccepts, hrest⟩ := (Woven.cons_false_iff _ _ _).mp h
  exact (Woven.cons_false_iff _ _ _).mpr ⟨haccepts, by simpa [Phase.next, hc] using hrest⟩

theorem Ready.head?_side {marked : Marked} (h : Ready marked) (wrapped : Bool) :
    (marked.side wrapped).head? = (marked.side false).head? := by
  rcases h.cases with rfl | ⟨c, rest, rfl, -⟩ <;> simp

theorem Ready.isEmpty_side {marked : Marked} (h : Ready marked) (wrapped : Bool) :
    (marked.side wrapped).isEmpty = (marked.side false).isEmpty := by
  rcases h.cases with rfl | ⟨c, rest, rfl, -⟩ <;> simp

/-- The first `n` characters have no marks, and behind them the text is ready. -/
def Clear (n : Nat) (marked : Marked) : Prop :=
  ∃ (text : Text) (rest : Marked), text.length = n ∧ marked = Marked.plain text ++ rest ∧ Ready rest

namespace Clear

variable {n k : Nat} {marked : Marked}

theorem zero (h : Ready marked) : Clear 0 marked := ⟨[], marked, rfl, rfl, h⟩

theorem cons {c : Char} (h : Clear n marked) : Clear (n + 1) ((c, false) :: marked) := by
  obtain ⟨text, rest, rfl, rfl, hready⟩ := h
  exact ⟨c :: text, rest, rfl, rfl, hready⟩

theorem drop_append {text : Text} {rest : Marked} :
    (Marked.plain text ++ rest).drop text.length = rest := by
  rw [← Marked.length_plain text, List.drop_left]

theorem ready (h : Clear n marked) : Ready (marked.drop n) := by
  obtain ⟨text, rest, rfl, rfl, hready⟩ := h
  rwa [drop_append]

theorem drop_side (h : Clear n marked) (wrapped : Bool) :
    (marked.side wrapped).drop n = Marked.side wrapped (marked.drop n) := by
  obtain ⟨text, rest, rfl, rfl, -⟩ := h
  rw [drop_append, Marked.side_append, Marked.side_plain, List.drop_left]

theorem add (h : Clear n marked) (hk : Clear k (marked.drop n)) : Clear (n + k) marked := by
  obtain ⟨text, rest, rfl, rfl, -⟩ := h
  rw [drop_append] at hk
  obtain ⟨more, behind, rfl, rfl, hready⟩ := hk
  exact ⟨text ++ more, behind, by simp, by simp, hready⟩

theorem length_take (h : Clear n marked) (wrapped : Bool) :
    (Marked.side wrapped (marked.take n)).length = n := by
  obtain ⟨text, rest, rfl, rfl, -⟩ := h
  have htake : (Marked.plain text ++ rest).take text.length = Marked.plain text := by
    rw [← Marked.length_plain text, List.take_left]
  rw [htake, Marked.side_plain]

end Clear

/-- Part of a marked text has been passed, and behind it the text is ready. -/
structure Passes (marked passed rest : Marked) : Prop where
  split : marked = passed ++ rest
  ready : Ready rest

theorem Passes.refl {marked : Marked} (h : Ready marked) : Passes marked [] marked := ⟨rfl, h⟩

theorem Passes.trans {marked passed rest passed' rest' : Marked} (h : Passes marked passed rest)
    (h' : Passes rest passed' rest') : Passes marked (passed ++ passed') rest' :=
  ⟨by rw [h.split, h'.split, List.append_assoc], h'.ready⟩

theorem Clear.passes {n : Nat} {marked : Marked} (h : Clear n marked) :
    Passes marked (marked.take n) (marked.drop n) :=
  ⟨(List.take_append_drop n marked).symm, h.ready⟩

/-- A reader finds the same length on both sides, and all of it without marks. -/
structure Agrees (read : Text → Option Nat) (marked : Marked) : Prop where
  side : ∀ wrapped, read (marked.side wrapped) = read (marked.side false)
  clear : ∀ n, read (marked.side false) = some n → Clear n marked

def Quiet (p : Char → Bool) : Prop := p '\n' = false ∧ p '\\' = false ∧ p ']' = false

theorem quiet_eq {c : Char} (hn : c ≠ '\n') (hback : c ≠ '\\') (hbracket : c ≠ ']') :
    Quiet fun d => decide (d = c) :=
  ⟨by simp [Ne.symm hn], by simp [Ne.symm hback], by simp [Ne.symm hbracket]⟩

theorem Ready.run {marked : Marked} (h : Ready marked) {p : Char → Bool} (hp : Quiet p) :
    ∃ (text : Text) (rest : Marked), marked = Marked.plain text ++ rest ∧ Ready rest ∧
      Clear text.length marked ∧ ∀ wrapped, (marked.side wrapped).takeWhile p = text ∧
        (marked.side wrapped).drop text.length = rest.side wrapped ∧
          (marked.side wrapped).dropWhile p = rest.side wrapped := by
  induction marked with
  | nil => exact ⟨[], [], rfl, h, Clear.zero h, by simp⟩
  | cons mark rest ih =>
      rcases h.cases with hnil | ⟨c, rest', hcons, -⟩
      · cases hnil
      · cases hcons
        by_cases hc : p c = true
        · have hback : c ≠ '\\' := fun heq => by simp [heq, hp.2.1] at hc
          have hbracket : c ≠ ']' := fun heq => by simp [heq, hp.2.2] at hc
          obtain ⟨text, behind, hsplit, hready, hclear, hside⟩ := ih (h.tail hback hbracket)
          exact ⟨c :: text, behind, by rw [hsplit]; rfl, hready, hclear.cons, fun wrapped => by
            simp [hc, hside wrapped]⟩
        · exact ⟨[], _, rfl, h, Clear.zero h, fun wrapped => by simp [hc]⟩

theorem Ready.takeWhile_side {marked : Marked} (h : Ready marked) {p : Char → Bool} (hp : Quiet p)
    (wrapped : Bool) : (marked.side wrapped).takeWhile p = (marked.side false).takeWhile p := by
  obtain ⟨text, rest, -, -, -, hside⟩ := h.run hp
  rw [(hside wrapped).1, (hside false).1]

theorem Ready.countWhile_side {marked : Marked} (h : Ready marked) {p : Char → Bool}
    (hp : Quiet p) (wrapped : Bool) :
    countWhile p (marked.side wrapped) = countWhile p (marked.side false) := by
  rw [countWhile, countWhile, h.takeWhile_side hp]

theorem Ready.clear_countWhile {marked : Marked} (h : Ready marked) {p : Char → Bool}
    (hp : Quiet p) : Clear (countWhile p (marked.side false)) marked := by
  obtain ⟨text, rest, -, -, hclear, hside⟩ := h.run hp
  rwa [countWhile, (hside false).1]

end SpacedDestination

end Canonmark
