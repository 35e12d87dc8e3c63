import Canonmark.Destination.Spaced
import Canonmark.Proofs.Text.Basic

/-!
# Destinations that are found

The scanner goes over each line once, from left to right. What it finds are spans that are not
empty, lie in the text and follow each other without overlap.
-/

namespace Canonmark.SpacedDestination

def Ascending (limit : Nat) : Nat → List Span → Prop
  | _, [] => True
  | start, span :: rest =>
      start ≤ span.start ∧ span.start < span.stop ∧ span.stop ≤ limit ∧
        Ascending limit span.stop rest

namespace Ascending

theorem mono {limit limit' start start' : Nat} {spans : List Span}
    (h : Ascending limit start spans) (hstart : start' ≤ start) (hlimit : limit ≤ limit') :
    Ascending limit' start' spans := by
  induction spans generalizing start start' with
  | nil => trivial
  | cons span rest ih =>
      obtain ⟨hle, hspan, hstop, hrest⟩ := h
      exact ⟨by omega, hspan, by omega, ih hrest (Nat.le_refl _)⟩

theorem append {limit middle start : Nat} {first second : List Span}
    (hfirst : Ascending middle start first) (hsecond : Ascending limit middle second)
    (hlimit : middle ≤ limit) (hstart : start ≤ middle) :
    Ascending limit start (first ++ second) := by
  induction first generalizing start with
  | nil => exact hsecond.mono hstart (Nat.le_refl _)
  | cons span rest ih =>
      obtain ⟨hle, hspan, hstop, hrest⟩ := hfirst
      exact ⟨hle, hspan, by omega, ih hrest hstop⟩

theorem mem_bounds {limit start : Nat} {spans : List Span} (h : Ascending limit start spans) :
    ∀ span ∈ spans, start ≤ span.start ∧ span.start < span.stop ∧ span.stop ≤ limit := by
  induction spans generalizing start with
  | nil => simp
  | cons span rest ih =>
      obtain ⟨hstart, hspan, hstop, hrest⟩ := h
      intro other hother
      rcases List.mem_cons.mp hother with rfl | hmem
      · exact ⟨hstart, hspan, hstop⟩
      · have hbounds := ih hrest other hmem
        omega

end Ascending

theorem closingParen?_cons {c : Char} (hbackslash : c ≠ '\\') (hnewline : c ≠ '\n')
    (depth : Nat) (rest : Text) :
    closingParen? depth (c :: rest) =
      if c = '(' then (closingParen? (depth + 1) rest).map (· + 1)
      else if c = ')' then
        if depth = 0 then some 0 else (closingParen? (depth - 1) rest).map (· + 1)
      else (closingParen? depth rest).map (· + 1) := by
  rw [closingParen?.eq_4]
  · rw [if_neg hnewline]
  · rintro rfl
    exact absurd rfl hbackslash
  · rintro _ _ rfl
    exact absurd rfl hbackslash

theorem closingParen?_escaped (depth : Nat) (c : Char) (rest : Text) :
    closingParen? depth ('\\' :: c :: rest) = (closingParen? depth rest).map (· + 2) := rfl

theorem closingParen?_lt {depth n : Nat} {text : Text}
    (h : closingParen? depth text = some n) : n < text.length := by
  fun_induction closingParen? depth text generalizing n with
  | case1 => cases h
  | case2 => cases h
  | case3 depth d rest ih =>
      obtain ⟨m, hm, rfl⟩ := Option.map_eq_some_iff.mp h
      have := ih hm
      simp only [List.length_cons]
      omega
  | case4 depth rest _ _ ih =>
      obtain ⟨m, hm, rfl⟩ := Option.map_eq_some_iff.mp h
      have := ih hm
      simp only [List.length_cons]
      omega
  | case5 =>
      cases h
      exact Nat.succ_pos _
  | case6 depth rest hdepth _ _ _ ih =>
      obtain ⟨m, hm, rfl⟩ := Option.map_eq_some_iff.mp h
      have := ih hm
      simp only [List.length_cons]
      omega
  | case7 => cases h
  | case8 depth c rest _ _ _ _ _ ih =>
      obtain ⟨m, hm, rfl⟩ := Option.map_eq_some_iff.mp h
      have := ih hm
      simp only [List.length_cons]
      omega

theorem beforeTail_isPrefix (text : Text) : beforeTail text <+: text := by
  induction text with
  | nil => exact List.prefix_refl _
  | cons c rest ih =>
      rw [beforeTail]
      split
      · exact List.nil_prefix
      · exact (List.prefix_cons_inj c).mpr ih

theorem find?_bounds {inner : Text} {span : Span} (h : find? inner = some span) :
    span.start < span.stop ∧ span.stop ≤ inner.length := by
  unfold find? at h
  generalize hcontent : inner.dropWhile Unicode.isWhitespace = content at h
  have hsuffix : content.length ≤ inner.length :=
    hcontent ▸ (List.dropWhile_suffix _).length_le
  have hprefix := (beforeTail_isPrefix content).length_le
  simp only at h
  split at h
  · cases h
  · next hkeep =>
      have hspace : (beforeTail content).any Unicode.isWhitespace = true := by
        simp only [Bool.or_eq_true, not_or, Bool.not_eq_true', Bool.not_eq_false] at hkeep
        exact hkeep.1.1.1.2
      have hpos : 0 < (beforeTail content).length := by
        obtain ⟨c, hc, -⟩ := List.any_eq_true.mp hspace
        exact List.length_pos_of_mem hc
      cases h
      exact ⟨Nat.lt_add_of_pos_right hpos, by rw [Span.stop_ofLength]; omega⟩

theorem onLine_drop {fuel depth position : Nat} (n : Nat) (text : Text)
    (h : Ascending (position + n + (text.drop n).length) (position + n)
      (onLine fuel depth (position + n) (text.drop n))) :
    Ascending (position + text.length) position (onLine fuel depth (position + n)
    (text.drop n)) := by
  rcases Nat.le_total n text.length with hn | hn
  · rw [List.length_drop] at h
    exact h.mono (by omega) (by omega)
  · rw [List.drop_eq_nil_of_le hn]
    cases fuel <;> trivial

theorem onLine_ascending (fuel depth position : Nat) (text : Text) :
    Ascending (position + text.length) position (onLine fuel depth position text) := by
  fun_induction onLine fuel depth position text with
  | case1 => trivial
  | case2 => trivial
  | case3 fuel depth position rest ih =>
      exact onLine_drop 2 ('\\' :: rest) (by simpa [Nat.add_assoc] using ih)
  | case4 fuel depth position rest _ n ih => exact onLine_drop n _ ih
  | case5 fuel depth position rest _ _ ih => exact onLine_drop 1 ('[' :: rest) ih
  | case6 fuel depth position c rest _ _ _ _ start inner hnone ih =>
      exact onLine_drop 2 (c :: rest) (by simpa [start, inner] using ih)
  | case7 fuel depth position c rest _ _ _ _ start inner n hclose found ih =>
      have hlt := closingParen?_lt hclose
      have hlength : inner.length = rest.length - 1 := List.length_drop
      have hrest : Ascending (position + (c :: rest).length) (start + n + 1)
          (onLine fuel (depth - 1) (start + n + 1) (inner.drop (n + 1))) := by
        refine ih.mono (Nat.le_refl _) ?_
        simp only [List.length_drop, List.length_cons]
        omega
      have hfirst : Ascending (start + n + 1) position found.toList := by
        cases hfind : find? (inner.take n) with
        | none => simp [found, hfind, Ascending]
        | some span =>
            obtain ⟨hspan, hstop⟩ := find?_bounds hfind
            rw [List.length_take_of_le (Nat.le_of_lt hlt)] at hstop
            simp only [found, hfind, Option.map_some, Option.toList_some]
            refine ⟨?_, Nat.add_lt_add_right hspan start, ?_, trivial⟩
            · rw [Span.start_shift]
              omega
            · rw [Span.stop_shift]
              omega
      exact hfirst.append hrest (by simp only [List.length_cons, start]; omega)
        (by simp only [start]; omega)
  | case8 fuel depth position c rest _ _ _ _ ih =>
      exact onLine_drop 1 (c :: rest) ih

theorem onLines_cons (state : FencedLines.State) (position : Nat) (line : Text)
    (rest : List Text) :
    onLines state position (line :: rest) =
      (if (FencedLines.step state line).2 then [] else onLine line.length 0 position line) ++
        onLines (FencedLines.step state line).1 (position + line.length) rest := rfl

theorem onLines_ascending (state : FencedLines.State) (position : Nat) (lines : List Text) :
    Ascending (position + lines.flatten.length) position (onLines state position lines) := by
  induction lines generalizing state position with
  | nil => trivial
  | cons line rest ih =>
      have hline : Ascending (position + line.length) position
          (if (FencedLines.step state line).2 then [] else onLine line.length 0 position line) := by
        split
        · trivial
        · exact onLine_ascending line.length 0 position line
      have hrest := ih (FencedLines.step state line).1 (position + line.length)
      rw [Nat.add_assoc, ← List.length_append, ← List.flatten_cons] at hrest
      exact hline.append hrest (by simp) (Nat.le_add_right _ _)

/-- The destinations that are found in a source lie in it and follow each other. -/
theorem spans_ascending (source : Text) : Ascending source.length 0 (spans source) := by
  have h := onLines_ascending none 0 (Text.lineSegments source)
  rwa [Text.flatten_lineSegments, Nat.zero_add] at h

end Canonmark.SpacedDestination
