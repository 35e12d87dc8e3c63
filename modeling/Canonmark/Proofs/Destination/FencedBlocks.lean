import Canonmark.Proofs.Destination.Found
import Canonmark.Proofs.Text.FencedLines

/-!
# Fenced code is left alone

What is found in a source is found line by line, and lines of fenced code take no part in it but
for their length: the text behind them is searched as if it stood alone.
-/

namespace Canonmark

namespace FencedLines

/-- Lines of which the first opens a fence, and of the others only the last one closes it. -/
inductive FencedBlock : List Text → Prop
  | intro {first last : Text} {body : List Text} {char : Char} {size : Nat}
      (hopens : opening? first = some (char, size))
      (hinside : ∀ line ∈ body, closes char size line = false)
      (hclosed : closes char size last = true) : FencedBlock (first :: (body ++ [last]))

theorem after_inside {char : Char} {size : Nat} {body : List Text}
    (hinside : ∀ line ∈ body, closes char size line = false) :
    after (some (char, size)) body = some (char, size) := by
  induction body with
  | nil => rfl
  | cons line rest ih =>
      rw [List.forall_mem_cons] at hinside
      rw [after_cons, step_inside hinside.1, ih hinside.2]

theorem FencedBlock.after {block : List Text} (h : FencedBlock block) :
    FencedLines.after none block = none := by
  cases h with
  | intro hopens hinside hclosed =>
      rw [after_cons, step_opening hopens, after_append, after_inside hinside, after_cons,
        step_closing hclosed]
      rfl

end FencedLines

namespace SpacedDestination

open Marked

theorem Ascending.shift {limit start : Nat} {spans : List Span} (h : Ascending limit start spans)
    (n : Nat) : Ascending (limit + n) (start + n) (spans.map (Span.shift n)) := by
  induction spans generalizing start with
  | nil => trivial
  | cons span rest ih =>
      obtain ⟨hstarts, hfilled, hstops, hlater⟩ := h
      exact ⟨Nat.add_le_add_right hstarts n, Nat.add_lt_add_right hfilled n,
        Nat.add_le_add_right hstops n, ih hlater⟩

theorem onLine_shift (fuel depth position n : Nat) (text : Text) :
    onLine fuel depth (position + n) text
      = (onLine fuel depth position text).map (Span.shift n) := by
  induction fuel generalizing depth position text with
  | zero => rfl
  | succ fuel ih =>
      cases text with
      | nil => rfl
      | cons c rest =>
          have honward {depth moved position : Nat} {text : Text} (hsame : moved = position + n) :
              onLine fuel depth moved text
                = (onLine fuel depth position text).map (Span.shift n) := by
            rw [hsame, ih]
          rw [onLine, onLine]
          split
          · exact honward (by omega)
          · split
            · exact honward (by omega)
            · split
              · exact honward (by omega)
              · split
                · simp only
                  split
                  · exact honward (by omega)
                  · next inside _ =>
                      rw [List.map_append]
                      congr 1
                      · cases find? ((rest.drop 1).take inside) with
                        | none => rfl
                        | some span =>
                            simp only [Option.map_some, Option.toList_some, List.map_cons,
                              List.map_nil, Span.shift, List.cons.injEq, Span.mk.injEq, and_true]
                            omega
                      · exact honward (by omega)
                · exact honward (by omega)

theorem onLines_shift (state : FencedLines.State) (position n : Nat) (lines : List Text) :
    onLines state (position + n) lines
      = (onLines state position lines).map (Span.shift n) := by
  induction lines generalizing state position with
  | nil => rfl
  | cons line rest ih =>
      rw [onLines_cons, onLines_cons, Nat.add_right_comm, ih, onLine_shift, List.map_append]
      split <;> rfl

theorem onLines_append (state : FencedLines.State) (position : Nat) (first second : List Text) :
    onLines state position (first ++ second)
      = onLines state position first
        ++ onLines (FencedLines.after state first) (position + first.flatten.length) second := by
  induction first generalizing state position with
  | nil => rfl
  | cons line rest ih =>
      rw [List.cons_append, onLines_cons, onLines_cons, ih, List.append_assoc,
        FencedLines.after_cons, List.flatten_cons, List.length_append, Nat.add_assoc]

theorem weave_shift (position n : Nat) (text : Text) (spans : List Span) :
    weave (position + n) text (spans.map (Span.shift n)) = weave position text spans := by
  induction spans generalizing position text with
  | nil => rfl
  | cons span rest ih =>
      rw [List.map_cons, weave, weave, Span.back_shift, Span.start_shift, Span.stop_shift,
        Nat.add_sub_add_right, Nat.add_sub_add_right, ih]

theorem onLines_inside {char : Char} {size : Nat} {body : List Text}
    (hinside : ∀ line ∈ body, FencedLines.closes char size line = false) (position : Nat) :
    onLines (some (char, size)) position body = [] := by
  induction body generalizing position with
  | nil => rfl
  | cons line rest ih =>
      rw [List.forall_mem_cons] at hinside
      rw [onLines_cons, FencedLines.step_inside hinside.1, ih hinside.2]
      rfl

theorem onLines_block {block : List Text} (h : FencedLines.FencedBlock block) (position : Nat) :
    onLines none position block = [] := by
  cases h with
  | intro hopens hinside hclosed =>
      rw [onLines_cons, FencedLines.step_opening hopens, onLines_append, onLines_inside hinside,
        FencedLines.after_inside hinside, onLines_cons, FencedLines.step_closing hclosed]
      rfl

/--
Of a fenced block only the length matters for what is found: behind it the source is searched as
if it stood alone, and the block is written down as it is.
-/
theorem spans_fenced {before block : List Text} {rest : Text}
    (hlines : Text.Lines (before ++ block)) (hclosed : FencedLines.after none before = none)
    (hfenced : FencedLines.FencedBlock block)
    (hended : rest = [] ∨ ∀ line ∈ block.getLast?, line.getLast? = some '\n') :
    spans (before.flatten ++ (block.flatten ++ rest))
        = spans before.flatten
          ++ (spans rest).map (Span.shift (before.flatten.length + block.flatten.length)) ∧
      markedSource (before.flatten ++ (block.flatten ++ rest))
        = markedSource before.flatten ++ (plain block.flatten ++ markedSource rest) := by
  have hfilled : block ≠ [] := by
    rintro rfl
    cases hfenced
  have hfound : spans (before.flatten ++ (block.flatten ++ rest))
      = spans before.flatten
        ++ (spans rest).map (Span.shift (before.flatten.length + block.flatten.length)) := by
    have hsegments := @Text.lineSegments_append _ rest hlines
      (by rwa [List.getLast?_append_of_ne_nil _ hfilled])
    rw [List.flatten_append, List.append_assoc, List.append_assoc] at hsegments
    rw [spans, hsegments, onLines_append, onLines_append, Nat.zero_add, hclosed,
      onLines_block hfenced, hfenced.after, List.nil_append, spans,
      Text.lineSegments_flatten hlines.left, spans, ← onLines_shift, Nat.zero_add]
  refine ⟨hfound, ?_⟩
  have hfirst := spans_ascending before.flatten
  have hsecond := (spans_ascending rest).shift (before.flatten.length + block.flatten.length)
  rw [Nat.zero_add] at hsecond
  have hfront := @weave_append _ 0 before.flatten (block.flatten ++ rest) _ _
    (by rwa [Nat.zero_add]) (hsecond.mono (by omega) (Nat.le_refl _))
  have hbehind := @weave_skip _ before.flatten.length block.flatten rest _ hsecond
  have hlater := weave_shift 0 (before.flatten.length + block.flatten.length) rest (spans rest)
  rw [Nat.zero_add] at hfront hlater
  rw [markedSource, hfound, hfront, hbehind, hlater]
  rfl

theorem spans_fenced_tildes :
    spans (["[a](b c)\n".toList].flatten ++ (["~~~ x\n".toList, "\x60\x60\x60\n".toList,
          "[c](d e)\n".toList, "~~~~\n".toList].flatten ++ "[f](g h)".toList))
        = spans ["[a](b c)\n".toList].flatten
          ++ (spans "[f](g h)".toList).map (Span.shift (9 + 24)) ∧
      markedSource (["[a](b c)\n".toList].flatten ++ (["~~~ x\n".toList,
          "\x60\x60\x60\n".toList, "[c](d e)\n".toList, "~~~~\n".toList].flatten
            ++ "[f](g h)".toList))
        = markedSource ["[a](b c)\n".toList].flatten
          ++ (plain ["~~~ x\n".toList, "\x60\x60\x60\n".toList, "[c](d e)\n".toList,
            "~~~~\n".toList].flatten ++ markedSource "[f](g h)".toList) := by
  have hfenced : FencedLines.FencedBlock ["~~~ x\n".toList, "\x60\x60\x60\n".toList,
      "[c](d e)\n".toList, "~~~~\n".toList] :=
    @FencedLines.FencedBlock.intro _ _ ["\x60\x60\x60\n".toList, "[c](d e)\n".toList] '~' 3 rfl
      (by decide) rfl
  refine spans_fenced ?_ rfl hfenced (.inr ?_)
  · simp [Text.Lines]
  · simp

end SpacedDestination

end Canonmark
