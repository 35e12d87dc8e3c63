import Canonmark.Html.Emphasis
import Canonmark.Proofs.Source.Paired
import Canonmark.Proofs.Text.Basic

/-!
# Places without indentation

The text between tags is read without the indentation of its lines. What is kept of it stands in
the same order in the HTML, with gaps behind line feeds alone, so that a delimiter is found where
its characters are.
-/

namespace Canonmark.Html

def Kept (html : Text) (stop : Nat) : (start : Nat) → List (Nat × Char) → Prop
  | start, [] => start ≤ stop
  | start, (position, c) :: rest =>
      start ≤ position ∧ html[position]? = some c ∧
        (c = '\n' ∨ ∀ next ∈ rest.head?, next.1 = position + 1) ∧ Kept html stop (position + 1) rest

/-- Where a place among the kept characters lies in the HTML; behind the last one it is `stop`. -/
def origin (stop : Nat) : List (Nat × Char) → Nat → Nat
  | [], _ => stop
  | first :: _, 0 => first.1
  | _ :: rest, place + 1 => origin stop rest place

theorem unindentedLine_cons (position : Nat) (c : Char) (rest : Text) :
    unindentedLine position (c :: rest) =
      if c = ' ' ∨ c = '\t' then unindentedLine (position + 1) rest
      else (position, c) :: (rest.zipIdx (position + 1)).map fun (c, i) => (i, c) := by
  simp only [unindentedLine, List.zipIdx_cons, List.map_cons, List.dropWhile_cons]
  split <;> simp_all

section

variable {html : Text} {stop : Nat} {behind : List (Nat × Char)}

theorem Kept.widen {start first : Nat} {kept : List (Nat × Char)} (h : Kept html stop start kept)
    (hle : first ≤ start) : Kept html stop first kept := by
  cases kept with
  | nil => exact Nat.le_trans hle h
  | cons found rest => exact ⟨Nat.le_trans hle h.1, h.2⟩

/-- A line feed ends a line that more is kept behind, and stands nowhere else in it. -/
structure Ends (line : Text) (behind : List (Nat × Char)) : Prop where
  inner : '\n' ∉ line.dropLast
  last : behind = [] ∨ line.getLast? = some '\n'

theorem Ends.tail {c d : Char} {rest : Text} (h : Ends (c :: d :: rest) behind) :
    Ends (d :: rest) behind := by
  obtain ⟨hinner, hlast⟩ := h
  constructor
  · exact fun hmem => hinner (List.mem_cons_of_mem c hmem)
  · exact hlast

theorem kept_line {line before after : Text} (hends : Ends line behind)
    (hwhole : html = before ++ line ++ after)
    (hlater : Kept html stop (before.length + line.length) behind) :
    Kept html stop before.length
      ((line.zipIdx before.length).map (fun (c, i) => (i, c)) ++ behind) := by
  induction line generalizing before with
  | nil => exact hlater
  | cons c rest ih =>
      have hhere : html[before.length]? = some c := by
        rw [hwhole, List.append_assoc, List.getElem?_append_right (Nat.le_refl _), Nat.sub_self]
        rfl
      cases rest with
      | nil =>
          refine ⟨Nat.le_refl _, hhere, ?_, hlater⟩
          rcases hends.last with rfl | hlast
          · exact .inr (by simp)
          · exact .inl (by simpa using hlast)
      | cons d rest =>
          have htail := @ih (before ++ [c]) hends.tail (by simpa using hwhole)
            (by simpa [Nat.add_assoc, Nat.add_comm, Nat.add_left_comm] using hlater)
          exact ⟨Nat.le_refl _, hhere, .inr (by simp), by simpa using htail⟩

theorem kept_unindentedLine {line before after : Text} (hends : Ends line behind)
    (hwhole : html = before ++ line ++ after)
    (hlater : Kept html stop (before.length + line.length) behind) :
    Kept html stop before.length (unindentedLine before.length line ++ behind) := by
  induction line generalizing before with
  | nil => exact hlater
  | cons c rest ih =>
      rw [unindentedLine_cons]
      split
      · next hblank =>
          cases rest with
          | nil =>
              have hnotFeed : c ≠ '\n' := by rcases hblank with rfl | rfl <;> decide
              obtain rfl : behind = [] := hends.last.resolve_right (by simpa using hnotFeed)
              exact Nat.le_trans (Nat.le_add_right _ _) hlater
          | cons d rest =>
              have htail := @ih (before ++ [c]) hends.tail (by simpa using hwhole)
                (by simpa [Nat.add_assoc, Nat.add_comm, Nat.add_left_comm] using hlater)
              rw [List.length_append] at htail
              exact htail.widen (Nat.le_add_right _ _)
      · exact kept_line hends hwhole hlater

theorem kept_unindentedFrom {lines : List Text} (hlines : Text.Lines lines)
    {before after : Text} (hwhole : html = before ++ lines.flatten ++ after)
    (hstops : stop = before.length + lines.flatten.length) :
    Kept html stop before.length (unindentedFrom before.length lines) := by
  induction lines generalizing before with
  | nil => exact Nat.le_of_eq (by simpa using hstops.symm)
  | cons line rest ih =>
      obtain ⟨-, hinner, hlast, hlater⟩ := hlines
      have htail := @ih hlater (before ++ line) (by simpa using hwhole)
        (by simpa [Nat.add_assoc] using hstops)
      rw [List.length_append] at htail
      have hends : Ends line (unindentedFrom (before.length + line.length) rest) := by
        refine ⟨hinner, hlast.imp_left ?_⟩
        rintro rfl
        rfl
      exact kept_unindentedLine hends
        (show html = before ++ line ++ (rest.flatten ++ after) by simpa using hwhole) htail

theorem kept_unindented {before text after : Text} (hwhole : html = before ++ text ++ after) :
    Kept html (before.length + text.length) before.length
      (unindented before.length text) := by
  have hflat := Text.flatten_lineSegments text
  exact kept_unindentedFrom (Text.lines_lineSegments text) (by rw [hflat, hwhole]) (by rw [hflat])

end

section

variable {html : Text} {stop start : Nat} {kept : List (Nat × Char)}

theorem getD_positions (kept : List (Nat × Char)) (stop place : Nat) :
    (kept.map (·.1)).toArray.getD place stop = origin stop kept place := by
  induction kept generalizing place with
  | nil => rfl
  | cons first rest ih =>
      cases place with
      | zero => rfl
      | succ place =>
          rw [origin, ← ih place]
          simp [Array.getD]

theorem origin_of_length_le {place : Nat} (h : kept.length ≤ place) :
    origin stop kept place = stop := by
  induction kept generalizing place with
  | nil => rfl
  | cons first rest ih =>
      cases place with
      | zero => exact absurd h (Nat.not_succ_le_zero _)
      | succ place => exact ih (Nat.le_of_succ_le_succ h)

theorem Kept.start_le_origin (h : Kept html stop start kept) (place : Nat) :
    start ≤ origin stop kept place ∧ origin stop kept place ≤ stop := by
  induction kept generalizing start place with
  | nil => exact ⟨h, Nat.le_refl _⟩
  | cons first rest ih =>
      obtain ⟨hle, -, -, hlater⟩ := h
      cases place with
      | zero =>
          exact ⟨hle, Nat.le_trans (Nat.le_succ _) (Nat.le_trans (ih hlater 0).1 (ih hlater 0).2)⟩
      | succ place =>
          have ⟨hfirst, hlast⟩ := ih hlater place
          exact ⟨Nat.le_trans hle (Nat.le_of_succ_le hfirst), hlast⟩

theorem Kept.origin_lt (h : Kept html stop start kept) {place : Nat} (hlt : place < kept.length) :
    origin stop kept place < origin stop kept (place + 1) := by
  induction kept generalizing start place with
  | nil => exact absurd hlt (Nat.not_lt_zero _)
  | cons first rest ih =>
      obtain ⟨-, -, -, hlater⟩ := h
      cases place with
      | zero => exact (hlater.start_le_origin 0).1
      | succ place => exact ih hlater (Nat.lt_of_succ_lt_succ hlt)

theorem Kept.origin_mono (h : Kept html stop start kept) {place other : Nat} (hle : place ≤ other) :
    origin stop kept place ≤ origin stop kept other := by
  induction kept generalizing start place other with
  | nil => simp [origin]
  | cons first rest ih =>
      obtain ⟨-, -, -, hlater⟩ := h
      cases place with
      | zero =>
          cases other with
          | zero => exact Nat.le_refl _
          | succ other => exact Nat.le_of_lt (hlater.start_le_origin other).1
      | succ place =>
          cases other with
          | zero => exact absurd hle (Nat.not_succ_le_zero _)
          | succ other => exact ih hlater (Nat.le_of_succ_le_succ hle)

theorem Kept.getElem?_origin (h : Kept html stop start kept) {place : Nat} {c : Char}
    (hhere : (kept.map (·.2))[place]? = some c) : html[origin stop kept place]? = some c := by
  induction kept generalizing start place with
  | nil => simp at hhere
  | cons first rest ih =>
      obtain ⟨-, hfound, -, hlater⟩ := h
      cases place with
      | zero => exact hfound.trans (by simpa using hhere)
      | succ place => exact ih hlater (by simpa using hhere)

theorem Kept.origin_next (h : Kept html stop start kept) {place : Nat} {c : Char}
    (hhere : (kept.map (·.2))[place]? = some c) (hnotFeed : c ≠ '\n')
    (hlt : place + 1 < kept.length) :
    origin stop kept (place + 1) = origin stop kept place + 1 := by
  induction kept generalizing start place with
  | nil => simp at hhere
  | cons first rest ih =>
      obtain ⟨-, hfound, hnext, hlater⟩ := h
      cases place with
      | zero =>
          obtain ⟨second, rest, rfl⟩ := List.exists_cons_of_length_pos (Nat.lt_of_succ_lt_succ hlt)
          have hsame : first.2 = c := by simpa using hhere
          exact (hnext.resolve_left (by rwa [hsame])) second rfl
      | succ place => exact ih hlater (by simpa using hhere) (Nat.lt_of_succ_lt_succ hlt)

end

end Canonmark.Html
