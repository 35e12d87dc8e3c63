import Canonmark.Proofs.Wrapped.Lines

/-!
# Where brackets open

The offsets, in the text without marks, at which brackets are opened. A line behind which none
opens before its end has no marks at all.
-/

namespace Canonmark.SpacedDestination

open Source

/-- Offsets in the text without marks, which starts at `position`, of the brackets that open. -/
def openings (position : Nat) : Marked → List Nat
  | [] => []
  | (_, false) :: rest => openings (position + 1) rest
  | (c, true) :: rest =>
      if c = '<' then position :: openings position rest else openings position rest

@[simp] theorem openings_append (position : Nat) (first second : Marked) :
    openings position (first ++ second) =
      openings position first ++ openings (position + (first.side false).length) second := by
  induction first generalizing position with
  | nil => simp [openings]
  | cons mark rest ih =>
      obtain ⟨c, inserted⟩ := mark
      cases inserted with
      | false => simp [openings, ih, Nat.add_assoc, Nat.add_comm 1]
      | true =>
          by_cases hc : c = '<'
          · simp [openings, hc, ih]
          · simp [openings, hc, ih]

@[simp] theorem openings_plain (position : Nat) (text : Text) :
    openings position (Marked.plain text) = [] := by
  induction text generalizing position with
  | nil => rfl
  | cons c rest ih => exact ih (position + 1)

theorem openings_weave {limit position : Nat} {text : Text} {spans : List Span}
    (hspans : Ascending limit position spans) (hlimit : limit ≤ position + text.length) :
    openings position (weave position text spans) = spans.map (·.start) := by
  induction spans generalizing position text with
  | nil => simp [weave]
  | cons span rest ih =>
      obtain ⟨hstart, hspan, hstop, hrest⟩ := hspans
      have hfirst : (text.take (span.start - position)).length = span.start - position := by
        rw [List.length_take]
        omega
      have hslice : ((span.back position).slice text).length = span.stop - span.start := by
        rw [Span.slice, List.length_take, List.length_drop, Span.start_back, Span.stop_back]
        omega
      have hrest := @ih span.stop (text.drop (span.stop - position)) hrest (by
        rw [List.length_drop]
        omega)
      have hopen : position + (span.start - position) = span.start := by omega
      have hclose : span.start + (span.stop - span.start) = span.stop := by omega
      simp [weave, openings, hfirst, hslice, hopen, hclose, hrest]

/-- The brackets of a source open where its destinations start. -/
theorem openings_markedSource (source : Text) :
    openings 0 (markedSource source) = (spans source).map (·.start) :=
  openings_weave (spans_ascending source) (by simp)

variable {α : Type} {marks : List Nat}

/-- A marked text that is ready, at a position of the source, whose brackets open at `marks`. -/
structure Placed (marks : List Nat) (position : Nat) (marked : Marked) : Prop where
  ready : Ready marked
  openings : ∀ p ∈ openings position marked, p ∈ marks

theorem Placed.passes {position : Nat} {marked passed rest : Marked}
    (h : Placed marks position marked) (hpasses : Passes marked passed rest) :
    Placed marks (position + (passed.side false).length) rest := by
  refine ⟨hpasses.ready, fun p hp => h.openings p ?_⟩
  rw [hpasses.split, openings_append]
  exact List.mem_append_right _ hp

def Free (marks : List Nat) (pieces : List (α × Span)) : Prop :=
  ∀ piece ∈ pieces, ∀ p ∈ marks, ¬(piece.2.start ≤ p ∧ p < piece.2.stop)

theorem Free.of_append {first second : List (α × Span)} (h : Free marks (first ++ second)) :
    Free marks first ∧ Free marks second :=
  ⟨fun piece hpiece => h piece (List.mem_append_left _ hpiece),
    fun piece hpiece => h piece (List.mem_append_right _ hpiece)⟩

def Untouched (marked : Marked) : Prop := ∃ text, line marked = Marked.plain text

/-- Marks begin with an opening bracket, so a line in which none opens has no marks. -/
theorem Woven.untouched {phase : Phase} {position : Nat} {marked : Marked}
    (h : Woven phase marked) (hout : phase.Outside)
    (hfree : ∀ p ∈ openings position marked,
      ¬(position ≤ p ∧ p < position + Source.lineLength (marked.side false))) : Untouched
      marked := by
  induction marked generalizing phase position with
  | nil => exact ⟨[], rfl⟩
  | cons mark rest ih =>
      obtain ⟨c, inserted⟩ := mark
      cases inserted with
      | true =>
          rcases h.cons_true with ⟨-, rfl, ⟨d, more, rfl, hd⟩, -⟩ | ⟨rfl, -⟩
          · refine absurd ⟨Nat.le_refl _, ?_⟩ (hfree position (by simp [openings]))
            have hpos : 0 < Source.lineLength (d :: Marked.side false more) := by
              rw [Source.lineLength]
              split <;> simp
            simpa using hpos
          · exact hout.elim
      | false =>
          obtain ⟨-, hrest⟩ := (Woven.cons_false_iff _ _ _).mp h
          by_cases hc : c = '\n'
          · exact ⟨[c], by simp [line, hc, Marked.plain]⟩
          · obtain ⟨text, htext⟩ := @ih (phase.next c) (position + 1) hrest (hout.next c)
              fun p hp hin => hfree p (by simpa [openings] using hp) (by
                simp only [Marked.side_cons_false, Source.lineLength, if_neg hc]
                omega)
            exact ⟨c :: text, by simp [line, hc, htext, Marked.plain]⟩

theorem Placed.untouched {position : Nat} {marked : Marked} (h : Placed marks position marked)
    (hfree : ∀ p ∈ marks, ¬(position ≤ p ∧ p < position + lineLength (marked.side false))) :
    Untouched marked :=
  Woven.untouched h.ready trivial fun p hp => hfree p (h.openings p hp)

end Canonmark.SpacedDestination
