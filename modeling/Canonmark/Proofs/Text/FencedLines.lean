import Canonmark.Text.Basic
import Canonmark.Text.FencedLines
import Mathlib.Data.List.Basic

/-!
# Lines of fenced code

Spans that start on the line of an opening fence, and reach up to the line that closes it, overlap
exactly the lines that are taken for fenced one by one.
-/

namespace Canonmark

namespace FencedLines

theorem stripQuotes_eq_self {line : Text} (h : (line.dropWhile (· = ' ')).head? ≠ some '>')
    (fuel : Nat) : stripQuotes fuel line = line := by
  cases fuel with
  | zero => rfl
  | succ fuel =>
      rw [stripQuotes]
      split
      · next rest hsame => exact absurd (congrArg List.head? hsame) h
      · rfl

theorem step_opening {line : Text} {char : Char} {size : Nat}
    (h : opening? line = some (char, size)) : step none line = (some (char, size), true) := by
  simp [step, h]

theorem step_inside {line : Text} {char : Char} {size : Nat} (h : closes char size line = false) :
    step (some (char, size)) line = (some (char, size), true) := by
  simp [step, h]

theorem step_closing {line : Text} {char : Char} {size : Nat} (h : closes char size line = true) :
    step (some (char, size)) line = (none, true) := by
  simp [step, h]

def after (state : State) (lines : List Text) : State :=
  lines.foldl (fun state line => (step state line).1) state

theorem after_cons (state : State) (line : Text) (rest : List Text) :
    after state (line :: rest) = after (step state line).1 rest := rfl

theorem after_append (state : State) (first second : List Text) :
    after state (first ++ second) = after (after state first) second :=
  List.foldl_append

def marked (state : State) (position : Nat) : List Text → List (Span × Bool)
  | [] => []
  | line :: rest =>
      (.ofLength position line.length, (step state line).2) ::
        marked (step state line).1 (position + line.length) rest

/-- Lines behind an opening fence, up to the one that closes it, and where the code stops. -/
inductive Inside (c : Char) (size : Nat) :
    (position : Nat) → List Text → List Text → (stop : Nat) → Prop
  | ended (position : Nat) : Inside c size position [] [] position
  | closed {position stop : Nat} {line : Text} (later : List Text)
      (hclosing : closes c size line = true) (hlt : position < stop)
      (hle : stop ≤ position + line.length) : Inside c size position [line] later stop
  | line {position stop : Nat} {line : Text} {body later : List Text}
      (hgoesOn : closes c size line = false)
      (hrest : Inside c size (position + line.length) body later stop) :
      Inside c size position (line :: body) later stop

/-- Spans of fenced code in lines from a position on. Each starts on the line of its fence. -/
inductive Covers : (position : Nat) → List Text → List Span → Prop
  | nil (position : Nat) : Covers position [] []
  | plain {position : Nat} {line : Text} {rest : List Text} {spans : List Span}
      (hnone : opening? line = none) (hlater : Covers (position + line.length) rest spans) :
      Covers position (line :: rest) spans
  | fenced {position : Nat} {line : Text} {body later : List Text} {c : Char} {size : Nat}
      {span : Span} {spans : List Span} (hopening : opening? line = some (c, size))
      (hfirst : position ≤ span.start ∧ span.start < position + line.length)
      (hinside : Inside c size (position + line.length) body later span.stop)
      (hrest : Covers (position + line.length + body.flatten.length) later spans) :
      Covers position (line :: (body ++ later)) (span :: spans)

section

variable {c : Char} {size position stop : Nat} {body later : List Text} {state : State}
  {lines : List Text} {spans : List Span}

theorem Inside.bounds (h : Inside c size position body later stop) :
    position ≤ stop ∧ stop ≤ position + body.flatten.length := by
  induction h with
  | ended position => simp
  | closed later hclosing hlt hle => simpa using ⟨Nat.le_of_lt hlt, hle⟩
  | line hgoesOn hrest ih =>
      rw [List.flatten_cons, List.length_append]
      omega

theorem marked_bounds (hfilled : ∀ line ∈ lines, line ≠ []) :
    ∀ entry ∈ marked state position lines,
      position ≤ entry.1.start ∧ entry.1.start < entry.1.stop := by
  induction lines generalizing state position with
  | nil => simp [marked]
  | cons line rest ih =>
      have hwide : 0 < line.length := List.length_pos_iff.mpr (hfilled line List.mem_cons_self)
      rw [marked, List.forall_mem_cons]
      refine ⟨⟨Nat.le_refl _, Nat.lt_add_of_pos_right hwide⟩, fun entry hmem => ?_⟩
      have hlater := ih (fun line hmem => hfilled line (List.mem_cons_of_mem _ hmem)) entry hmem
      omega

theorem Inside.exists_marked (h : Inside c size position body later stop)
    (hfilled : ∀ line ∈ body, line ≠ []) :
    ∃ fenced, marked (some (c, size)) position (body ++ later) =
        fenced ++ marked none (position + body.flatten.length) later ∧
      ∀ entry ∈ fenced, entry.2 = true ∧ position ≤ entry.1.start ∧
        entry.1.start < entry.1.stop ∧ entry.1.start < stop := by
  induction h with
  | ended position => exact ⟨[], rfl, by simp⟩
  | @closed position stop line later hclosing hlt hle =>
      have hwide := List.length_pos_iff.mpr (hfilled line List.mem_cons_self)
      refine ⟨[(.ofLength position line.length, true)], ?_, ?_⟩
      · simp [marked, step, hclosing]
      · rw [List.forall_mem_singleton]
        exact ⟨rfl, Nat.le_refl _, Nat.lt_add_of_pos_right hwide, hlt⟩
  | @line position stop line body later hgoesOn hinner ih =>
      have hwide := List.length_pos_iff.mpr (hfilled line List.mem_cons_self)
      have hstops := hinner.bounds.1
      obtain ⟨fenced, hsplit, hall⟩ := ih fun line hmem => hfilled line
        (List.mem_cons_of_mem _ hmem)
      refine ⟨(.ofLength position line.length, true) :: fenced, ?_, ?_⟩
      · simp [marked, step, hgoesOn, hsplit, Nat.add_assoc]
      · rw [List.forall_mem_cons]
        have hahead := Nat.lt_of_lt_of_le (Nat.lt_add_of_pos_right hwide) hstops
        refine ⟨⟨rfl, Nat.le_refl _, Nat.lt_add_of_pos_right hwide, hahead⟩, fun entry hmem => ?_⟩
        have hlater := hall entry hmem
        exact ⟨hlater.1, by omega, hlater.2.2⟩

theorem Covers.le_start (h : Covers position lines spans) :
    ∀ span ∈ spans, position ≤ span.start := by
  induction h with
  | nil position => simp
  | plain hnone hlater ih =>
      exact fun span hmem => Nat.le_trans (Nat.le_add_right _ _) (ih span hmem)
  | fenced hopening hfirst hinside hrest ih =>
      rw [List.forall_mem_cons]
      refine ⟨hfirst.1, fun span hmem => ?_⟩
      have hlater := ih span hmem
      omega

/-- The tracker marks the lines that fenced code overlaps. -/
theorem Covers.marked_iff (h : Covers position lines spans) (hfilled : ∀ line ∈ lines, line ≠ []) :
    ∀ entry ∈ marked none position lines, entry.2 = true ↔
      ∃ span ∈ spans, entry.1.start < span.stop ∧ span.start < entry.1.stop := by
  induction h with
  | nil position => simp [marked]
  | @plain position line rest spans hunopened hlater ih =>
      have hfilled := fun line hmem => hfilled line (List.mem_cons_of_mem _ hmem)
      have hfirst : step none line = (none, false) := by simp [step, hunopened]
      rw [marked, hfirst, List.forall_mem_cons]
      refine ⟨?_, ih hfilled⟩
      simp only [Bool.false_eq_true, false_iff, not_exists, not_and, Nat.not_lt]
      exact fun span hmem _ => hlater.le_start span hmem
  | @fenced position line body later c size span spans hopening hfirst hinside hrest ih =>
      have hfilledLine := hfilled line List.mem_cons_self
      have hfilledBody := fun line hmem =>
        hfilled line (List.mem_cons_of_mem _ (List.mem_append_left later hmem))
      have hfilledLater := fun line hmem =>
        hfilled line (List.mem_cons_of_mem _ (List.mem_append_right body hmem))
      obtain ⟨fenced, hsplit, hall⟩ := hinside.exists_marked hfilledBody
      have hopened : step none line = (some (c, size), true) := step_opening hopening
      have ⟨hstops, hwithin⟩ := hinside.bounds
      have hwide := List.length_pos_iff.mpr hfilledLine
      rw [marked, hopened, hsplit, List.forall_mem_cons, List.forall_mem_append]
      refine ⟨?_, fun entry hmem => ?_, fun entry hmem => ?_⟩
      · simp only [true_iff]
        exact ⟨span, List.mem_cons_self, Nat.lt_of_lt_of_le (Nat.lt_add_of_pos_right hwide) hstops,
          hfirst.2⟩
      · have ⟨hfenced, hle, _, hstarts⟩ := hall entry hmem
        simp only [hfenced, true_iff]
        exact ⟨span, List.mem_cons_self, hstarts, by omega⟩
      · have ⟨hle, _⟩ := marked_bounds hfilledLater entry hmem
        have hapart : ¬(entry.1.start < span.stop ∧ span.start < entry.1.stop) := by omega
        rw [ih hfilledLater entry hmem]
        simp only [List.mem_cons, exists_eq_or_imp, hapart, false_or]

end

end FencedLines

end Canonmark
