import Canonmark.Proofs.Destination.Wrapping

/-!
# What stands around brackets

An automaton reads a marked text and tells where a bracket may have been inserted: behind `](`
and white space one is opened, it is closed on the same line, and a parenthesis follows it there.
Behind an angle bracket that is not marked, no bracket follows on the line.

Readers of lines are compared on both sides of a marked text by the phases they pass through.
-/

namespace Canonmark.SpacedDestination

/-- No destination ends behind a backslash or white space. -/
def goesOn (c : Char) : Bool := c = '\\' || Unicode.isWhitespace c

inductive Phase where
  | plain (escaped : Bool)
  /-- A closing bracket that no backslash escapes. -/
  | bracket
  /-- The parenthesis behind such a bracket, and white space. -/
  | gap
  /-- An inserted bracket, and part of the destination, which may have to go on. -/
  | inside (onward : Bool)
  /-- A wrapped destination and what follows it before a parenthesis. -/
  | tail (angle : Bool)
  /-- An angle bracket that is not marked. -/
  | closed
  deriving DecidableEq

namespace Phase

def behind (c : Char) : Phase :=
  if c = '\\' then .plain true
  else if c = ']' then .bracket
  else if c = '<' then .closed
  else .plain false

def next (c : Char) (phase : Phase) : Phase :=
  if c = '\n' then .plain false
  else
    match phase with
    | plain true => if c = '<' then .closed else .plain false
    | plain false => behind c
    | bracket => if c = '(' then .gap else behind c
    | gap => if Unicode.isWhitespace c then .gap else behind c
    | inside _ => .inside (goesOn c)
    | tail angle =>
        if c = ')' then (if angle then .closed else .plain false) else .tail (angle || c = '<')
    | closed => .closed

/-- The characters that may follow without a mark. Carriage returns have become line feeds. -/
def Accepts (c : Char) : Phase → Prop
  | inside _ => c ≠ '\n' ∧ c ≠ '\r' ∧ c ≠ '<' ∧ c ≠ '>'
  | tail _ => c ≠ '\n' ∧ c ≠ '\r'
  | _ => c ≠ '\r'

def Outside : Phase → Prop
  | inside _ => False
  | tail _ => False
  | _ => True

def run (text : Text) (phase : Phase) : Phase := text.foldl (fun phase c => phase.next c) phase

@[simp] theorem run_nil (phase : Phase) : run [] phase = phase := rfl

@[simp] theorem run_cons (c : Char) (text : Text) (phase : Phase) :
    run (c :: text) phase = run text (phase.next c) := rfl

@[simp] theorem run_append (first second : Text) (phase : Phase) :
    run (first ++ second) phase = run second (run first phase) := by
  simp [run]

@[simp] theorem next_newline (phase : Phase) : phase.next '\n' = .plain false := rfl

theorem Outside.next {phase : Phase} (h : phase.Outside) (c : Char) : (phase.next c).Outside := by
  unfold Phase.next
  split
  · trivial
  · cases phase with
    | plain escaped => cases escaped <;> simp only [behind] <;> split_ifs <;> trivial
    | bracket => simp only [behind]; split_ifs <;> trivial
    | gap => simp only [behind]; split_ifs <;> trivial
    | inside onward => exact h.elim
    | tail angle => exact h.elim
    | closed => trivial

theorem Outside.run {phase : Phase} (h : phase.Outside) (text : Text) :
    (phase.run text).Outside := by
  induction text generalizing phase with
  | nil => exact h
  | cons c rest ih => exact ih (h.next c)

theorem Outside.accepts {phase : Phase} (h : phase.Outside) {c : Char} (hc : c ≠ '\r') :
    phase.Accepts c := by
  cases phase with
  | inside onward => exact h.elim
  | tail angle => exact h.elim
  | _ => exact hc

theorem next_ne_closed {phase : Phase} (hout : phase.Outside) (h : phase ≠ .closed) {c : Char}
    (hc : c ≠ '<') : phase.next c ≠ .closed := by
  unfold Phase.next
  split
  · simp
  · cases phase with
    | plain escaped =>
        cases escaped with
        | true => simp
        | false => simp only [behind]; split_ifs <;> simp_all
    | bracket => simp only [behind]; split_ifs <;> simp_all
    | gap => simp only [behind]; split_ifs <;> simp_all
    | inside onward => exact hout.elim
    | tail angle => exact hout.elim
    | closed => exact absurd rfl h

theorem run_ne_closed {phase : Phase} (hout : phase.Outside) (h : phase ≠ .closed) {text : Text}
    (ht : '<' ∉ text) : phase.run text ≠ .closed := by
  induction text generalizing phase with
  | nil => exact h
  | cons c rest ih =>
      obtain ⟨hc, hrest⟩ := not_or.mp (mt List.mem_cons.mpr ht)
      exact ih (hout.next c) (next_ne_closed hout h (Ne.symm hc)) hrest

theorem behind_ne_gap (c : Char) : behind c ≠ .gap := by
  unfold behind
  split_ifs <;> simp

theorem next_gap {phase : Phase} {c : Char} (h : phase.next c = .gap) :
    phase = .bracket ∧ c = '(' ∨ phase = .gap ∧ Unicode.isWhitespace c = true := by
  unfold Phase.next at h
  split at h
  · cases h
  · cases phase with
    | plain escaped => cases escaped with
        | true => simp only at h; split at h <;> cases h
        | false => exact absurd h (behind_ne_gap c)
    | bracket =>
        by_cases hc : c = '('
        · exact .inl ⟨rfl, hc⟩
        · exact absurd (by simpa [hc] using h) (behind_ne_gap c)
    | gap =>
        by_cases hc : Unicode.isWhitespace c = true
        · exact .inr ⟨rfl, hc⟩
        · exact absurd (by simpa [hc] using h) (behind_ne_gap c)
    | inside onward => cases h
    | tail angle => simp only at h; split_ifs at h
    | closed => cases h

theorem next_backslash_ne_gap (phase : Phase) : phase.next '\\' ≠ .gap := fun h => by
  rcases next_gap h with ⟨-, hparen⟩ | ⟨-, hspace⟩
  · cases hparen
  · cases hspace

theorem next_backslash_ne_bracket (phase : Phase) : phase.next '\\' ≠ .bracket := by
  cases phase with
  | plain escaped => cases escaped <;> decide
  | gap => decide
  | inside onward => simp [Phase.next]
  | tail angle => simp [Phase.next]
  | _ => decide

theorem next_backslash_inside {phase : Phase} {onward : Bool}
    (h : phase.next '\\' = .inside onward) : onward = true := by
  cases phase with
  | plain escaped => cases escaped <;> simp [Phase.next, behind] at h
  | bracket => simp [Phase.next, behind] at h
  | gap => simp [Phase.next, behind, show Unicode.isWhitespace '\\' = false from rfl] at h
  | inside before => simpa [Phase.next, goesOn] using h.symm
  | tail angle => simp [Phase.next] at h
  | closed => simp [Phase.next] at h

end Phase

/-- The brackets of a marked text stand where wrapping puts them, from a phase on. -/
def Woven : Phase → Marked → Prop
  | phase, [] => phase.Outside
  | phase, (c, false) :: rest => phase.Accepts c ∧ Woven (phase.next c) rest
  | .gap, (c, true) :: rest =>
      c = '<' ∧ (∃ d more, rest = (d, false) :: more ∧ Unicode.isWhitespace d = false) ∧
        Woven (.inside false) rest
  | .inside false, (c, true) :: rest =>
      c = '>' ∧ (∃ d more, rest = (d, false) :: more ∧
        (Unicode.isWhitespace d = true ∨ d = ')')) ∧ Woven (.tail false) rest
  | _, (_, true) :: _ => False

namespace Woven

@[simp] theorem nil_iff (phase : Phase) : Woven phase [] ↔ phase.Outside := by
  simp [Woven]

@[simp] theorem cons_false_iff (phase : Phase) (c : Char) (rest : Marked) :
    Woven phase ((c, false) :: rest) ↔ phase.Accepts c ∧ Woven (phase.next c) rest := by
  simp [Woven]

theorem gap_cons_iff (c : Char) (rest : Marked) :
    Woven .gap ((c, true) :: rest) ↔
      c = '<' ∧ (∃ d more, rest = (d, false) :: more ∧ Unicode.isWhitespace d = false) ∧
        Woven (.inside false) rest := by
  rw [Woven]

theorem inside_cons_iff (c : Char) (rest : Marked) :
    Woven (.inside false) ((c, true) :: rest) ↔
      c = '>' ∧ (∃ d more, rest = (d, false) :: more ∧
        (Unicode.isWhitespace d = true ∨ d = ')')) ∧ Woven (.tail false) rest := by
  rw [Woven]

theorem cons_true {phase : Phase} {c : Char} {rest : Marked}
    (h : Woven phase ((c, true) :: rest)) :
    (phase = .gap ∧ c = '<' ∧
        (∃ d more, rest = (d, false) :: more ∧ Unicode.isWhitespace d = false) ∧
          Woven (.inside false) rest) ∨
      (phase = .inside false ∧ c = '>' ∧
        (∃ d more, rest = (d, false) :: more ∧ (Unicode.isWhitespace d = true ∨ d = ')')) ∧
          Woven (.tail false) rest) := by
  unfold Woven at h
  split at h <;> simp_all

theorem plain_append {phase : Phase} (hout : phase.Outside) {text : Text} (hcr : '\r' ∉ text)
    {rest : Marked} (h : Woven (phase.run text) rest) :
    Woven phase (Marked.plain text ++ rest) := by
  induction text generalizing phase with
  | nil => exact h
  | cons c more ih =>
      obtain ⟨hc, hmore⟩ := not_or.mp (mt List.mem_cons.mpr hcr)
      exact (cons_false_iff phase c _).mpr
        ⟨hout.accepts (Ne.symm hc), ih (hout.next c) hmore h⟩

/-- Where no bracket follows on the line, it does not matter what was passed. -/
theorem of_closed {phase : Phase} (hout : phase.Outside) {marked : Marked}
    (h : Woven .closed marked) : Woven phase marked := by
  induction marked generalizing phase with
  | nil => simpa using hout
  | cons mark rest ih =>
      obtain ⟨c, inserted⟩ := mark
      cases inserted with
      | true => rcases cons_true h with ⟨h, -⟩ | ⟨h, -⟩ <;> cases h
      | false =>
          obtain ⟨hc, hrest⟩ := (cons_false_iff _ _ _).mp h
          refine (cons_false_iff _ _ _).mpr ⟨hout.accepts hc, ?_⟩
          by_cases hn : c = '\n'
          · subst hn
            simpa using hrest
          · exact ih (hout.next c) (by simpa [Phase.next, hn] using hrest)

end Woven

end Canonmark.SpacedDestination
