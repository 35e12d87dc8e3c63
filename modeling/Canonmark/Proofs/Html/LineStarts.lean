import Canonmark.Proofs.Html.Settling

/-!
# Line starts

A place in a text without indentation is found in the HTML by the line that it is on: the last one
that does not start behind it. From the start of that line behind its indentation the characters
stand in one run, so that the places are counted from there.
-/

namespace Canonmark.Html

def indents (c : Char) : Bool := c = ' ' || c = '\t'

/-- Where a line starts behind its indentation: its place among what is kept, and its position. -/
structure LineStart where
  place : Nat
  position : Nat
  deriving DecidableEq, Repr

namespace LineStart

def ofLines (place position : Nat) : List Text → List LineStart
  | [] => []
  | line :: rest =>
      ⟨place, position + (line.takeWhile indents).length⟩ ::
        ofLines (place + (line.dropWhile indents).length) (position + line.length) rest

def ofText (position : Nat) (text : Text) : List LineStart :=
  ofLines 0 position (Text.lineSegments text)

/-- The position of a place, counted from the last start that is not behind it. -/
def origin? (starts : List LineStart) (place : Nat) : Option Nat :=
  (starts.takeWhile (·.place ≤ place)).getLast?.map fun start =>
    start.position + (place - start.place)

theorem le_of_mem_ofLines {place position : Nat} {lines : List Text} {start : LineStart}
    (hmem : start ∈ ofLines place position lines) : place ≤ start.place := by
  induction lines generalizing place position with
  | nil => cases hmem
  | cons line rest ih =>
      rcases List.mem_cons.mp hmem with rfl | hmem
      · exact Nat.le_refl _
      · exact Nat.le_trans (Nat.le_add_right _ _) (ih hmem)

/-- A search by halves finds the last start that is not behind a place. -/
theorem pairwise_ofLines (place position : Nat) (lines : List Text) :
    (ofLines place position lines).Pairwise fun first second => first.place ≤ second.place := by
  induction lines generalizing place position with
  | nil => exact .nil
  | cons line rest ih =>
      refine .cons (fun start hmem => ?_) (ih _ _)
      exact Nat.le_trans (Nat.le_add_right _ _) (le_of_mem_ofLines hmem)

theorem origin?_of_lt {first : LineStart} {rest : List LineStart} {place : Nat}
    (hle : first.place ≤ place) (hbehind : ∀ second ∈ rest.head?, place < second.place) :
    origin? (first :: rest) place = some (first.position + (place - first.place)) := by
  have hstops : rest.takeWhile (·.place ≤ place) = [] := by
    cases rest with
    | nil => rfl
    | cons second rest => simpa using hbehind second rfl
  rw [origin?, List.takeWhile_cons_of_pos (by simpa using hle), hstops]
  rfl

theorem origin?_of_le {first second : LineStart} {rest : List LineStart} {place : Nat}
    (hle : first.place ≤ place) (hnext : second.place ≤ place) :
    origin? (first :: second :: rest) place = origin? (second :: rest) place := by
  rw [origin?, origin?, List.takeWhile_cons_of_pos (by simpa using hle),
    List.takeWhile_cons_of_pos (by simpa using hnext), List.getLast?_cons_cons]

end LineStart

def run (position : Nat) (text : Text) : List (Nat × Char) :=
  (text.zipIdx position).map fun (c, i) => (i, c)

theorem length_run (position : Nat) (text : Text) :
    (run position text).length = text.length := by
  simp [run]

theorem unindentedLine_eq (position : Nat) (line : Text) :
    unindentedLine position line =
      run (position + (line.takeWhile indents).length) (line.dropWhile indents) := by
  induction line generalizing position with
  | nil => rfl
  | cons c rest ih =>
      rw [unindentedLine_cons]
      by_cases hblank : c = ' ' ∨ c = '\t'
      · have hindent : indents c = true := by simpa [indents] using hblank
        rw [if_pos hblank, ih, List.takeWhile_cons_of_pos hindent,
          List.dropWhile_cons_of_pos hindent, List.length_cons]
        congr 1
        omega
      · have hother : ¬indents c = true := by simpa [indents] using hblank
        rw [if_neg hblank, List.takeWhile_cons_of_neg hother, List.dropWhile_cons_of_neg hother]
        rfl

theorem length_unindentedLine (position : Nat) (line : Text) :
    (unindentedLine position line).length = (line.dropWhile indents).length := by
  rw [unindentedLine_eq, length_run]

theorem length_takeWhile_add (line : Text) :
    (line.takeWhile indents).length + (line.dropWhile indents).length = line.length := by
  rw [← List.length_append, List.takeWhile_append_dropWhile]

section

variable {stop place : Nat} {kept behind : List (Nat × Char)}

theorem origin_append_left (hlt : place < kept.length) :
    origin stop (kept ++ behind) place = origin stop kept place := by
  induction kept generalizing place with
  | nil => exact absurd hlt (Nat.not_lt_zero _)
  | cons first rest ih =>
      cases place with
      | zero => rfl
      | succ place => exact ih (Nat.lt_of_succ_lt_succ hlt)

theorem origin_append_right :
    origin stop (kept ++ behind) (kept.length + place) = origin stop behind place := by
  induction kept with
  | nil => rw [List.nil_append, List.length_nil, Nat.zero_add]
  | cons first rest ih =>
      have hplace : (first :: rest).length + place = rest.length + place + 1 := by
        rw [List.length_cons]
        omega
      rw [hplace]
      exact ih

theorem origin_run {position : Nat} {text : Text} (hlt : place < text.length) :
    origin stop (run position text) place = position + place := by
  induction text generalizing position place with
  | nil => exact absurd hlt (Nat.not_lt_zero _)
  | cons c rest ih =>
      cases place with
      | zero => rfl
      | succ place =>
          have hlater : origin stop (run (position + 1) rest) place = position + 1 + place :=
            ih (Nat.lt_of_succ_lt_succ hlt)
          rw [Nat.add_assoc, Nat.add_comm 1 place] at hlater
          exact hlater

theorem origin_line_left {position : Nat} {line : Text}
    (hlt : place < (line.dropWhile indents).length) :
    origin stop (unindentedLine position line ++ behind) place =
      position + (line.takeWhile indents).length + place := by
  rw [origin_append_left (by rwa [length_unindentedLine]), unindentedLine_eq, origin_run hlt]

theorem origin_line_right {position : Nat} {line : Text} :
    origin stop (unindentedLine position line ++ behind)
        ((line.dropWhile indents).length + place) =
      origin stop behind place := by
  rw [← length_unindentedLine position line, origin_append_right]

end

theorem origin?_ofLines {lines : List Text} (hfilled : lines ≠ []) (first position : Nat)
    {place : Nat} (hle : place ≤ (unindentedFrom position lines).length) :
    LineStart.origin? (LineStart.ofLines first position lines) (first + place) =
      some (origin (position + lines.flatten.length) (unindentedFrom position lines) place) := by
  induction lines generalizing first position place with
  | nil => exact absurd rfl hfilled
  | cons line rest ih =>
      have hwhole : position + (line :: rest).flatten.length =
          position + line.length + rest.flatten.length := by
        rw [List.flatten_cons, List.length_append, Nat.add_assoc]
      rw [unindentedFrom, List.length_append, length_unindentedLine] at hle
      rw [LineStart.ofLines, unindentedFrom, hwhole]
      rcases Nat.lt_or_ge place (line.dropWhile indents).length with hlt | hge
      · have hbehind : ∀ second ∈ (LineStart.ofLines (first + (line.dropWhile indents).length)
            (position + line.length) rest).head?, first + place < second.place := by
          intro second hmem
          have := LineStart.le_of_mem_ofLines (List.mem_of_head? hmem)
          omega
        rw [LineStart.origin?_of_lt (Nat.le_add_right _ _) hbehind, origin_line_left hlt,
          Nat.add_sub_cancel_left]
      · obtain ⟨n, rfl⟩ := Nat.exists_eq_add_of_le hge
        rw [origin_line_right]
        cases rest with
        | nil =>
            have hwidth := length_takeWhile_add line
            rw [unindentedFrom, List.length_nil] at hle
            rw [LineStart.origin?_of_lt (Nat.le_add_right _ _) (by simp [LineStart.ofLines]),
              unindentedFrom, origin, Nat.add_sub_cancel_left, List.flatten_nil, List.length_nil]
            simp only [Option.some.injEq]
            omega
        | cons next more =>
            have hlater := ih (List.cons_ne_nil _ _) (first + (line.dropWhile indents).length)
              (position + line.length) (Nat.le_of_add_le_add_left hle)
            rw [LineStart.ofLines] at hlater ⊢
            rw [LineStart.origin?_of_le (Nat.le_add_right _ _) (by simp only; omega),
              ← Nat.add_assoc, hlater]

end Canonmark.Html
