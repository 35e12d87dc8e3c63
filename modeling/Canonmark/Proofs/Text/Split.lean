import Canonmark.Text.Basic

/-!
# Split and joined lines

A text is the lines that it splits into, joined again. Line ends of any kind turn into line feeds.
-/

namespace Canonmark.Text

theorem splitLines_ne_nil (text : Text) : splitLines text ≠ [] := by
  cases text with
  | nil => simp [splitLines]
  | cons c rest =>
      rw [splitLines]
      split
      · simp
      · split <;> simp

theorem splitLines_feed (rest : Text) : splitLines ('\n' :: rest) = [] :: splitLines rest := by
  rw [splitLines, if_pos rfl]

theorem splitLines_cons {c : Char} (h : c ≠ '\n') {rest line : Text} {lines : List Text}
    (hsplit : splitLines rest = line :: lines) :
    splitLines (c :: rest) = (c :: line) :: lines := by
  rw [splitLines, if_neg h, hsplit]

theorem splitLines_line {line : Text} (h : '\n' ∉ line) : splitLines line = [line] := by
  induction line with
  | nil => rfl
  | cons c rest ih =>
      simp only [List.mem_cons, not_or] at h
      exact splitLines_cons (Ne.symm h.1) (ih h.2)

theorem splitLines_append (first second : Text) :
    splitLines (first ++ '\n' :: second) = splitLines first ++ splitLines second := by
  induction first with
  | nil => exact splitLines_feed second
  | cons c rest ih =>
      by_cases h : c = '\n'
      · subst h
        rw [List.cons_append, splitLines_feed, ih, splitLines_feed, List.cons_append]
      · obtain ⟨line, lines, hsplit⟩ := List.exists_cons_of_ne_nil (splitLines_ne_nil rest)
        rw [hsplit, List.cons_append] at ih
        rw [List.cons_append, splitLines_cons h ih, splitLines_cons h hsplit, List.cons_append]

theorem not_mem_of_mem_splitLines {text line : Text} (h : line ∈ splitLines text) :
    '\n' ∉ line := by
  induction text generalizing line with
  | nil =>
      obtain rfl := List.mem_singleton.mp h
      simp
  | cons c rest ih =>
      obtain ⟨first, lines, hsplit⟩ := List.exists_cons_of_ne_nil (splitLines_ne_nil rest)
      by_cases hfeed : c = '\n'
      · rw [hfeed, splitLines_feed] at h
        rcases List.mem_cons.mp h with rfl | h
        · simp
        · exact ih h
      · rw [splitLines_cons hfeed hsplit] at h
        rcases List.mem_cons.mp h with rfl | h
        · have hinner := ih (hsplit ▸ List.mem_cons_self)
          simp [Ne.symm hfeed, hinner]
        · exact ih (hsplit ▸ List.mem_cons_of_mem _ h)

theorem flatMap_splitLines (text : Text) :
    (splitLines text).flatMap (· ++ ['\n']) = text ++ ['\n'] := by
  induction text with
  | nil => rfl
  | cons c rest ih =>
      obtain ⟨line, lines, hsplit⟩ := List.exists_cons_of_ne_nil (splitLines_ne_nil rest)
      by_cases hfeed : c = '\n'
      · rw [hfeed, splitLines_feed, List.flatMap_cons, ih]
        rfl
      · rw [hsplit, List.flatMap_cons] at ih
        rw [splitLines_cons hfeed hsplit, List.flatMap_cons, List.cons_append, List.cons_append,
          ih, List.cons_append]

theorem splitLines_joinLines {lines : List Text} (hsome : lines ≠ [])
    (h : ∀ line ∈ lines, '\n' ∉ line) : splitLines (joinLines lines) = lines := by
  induction lines with
  | nil => exact absurd rfl hsome
  | cons line rest ih =>
      have hfirst := splitLines_line (h line List.mem_cons_self)
      cases rest with
      | nil => exact hfirst
      | cons next rest =>
          have hlater := ih (List.cons_ne_nil next rest)
            fun line hmem => h line (List.mem_cons_of_mem _ hmem)
          rw [joinLines, joinWith, List.append_assoc, List.singleton_append, splitLines_append,
            hfirst]
          exact congrArg (line :: ·) hlater

theorem joinLines_concat {lines : List Text} (hsome : lines ≠ []) :
    joinLines lines ++ ['\n'] = lines.flatMap (· ++ ['\n']) := by
  induction lines with
  | nil => exact absurd rfl hsome
  | cons line rest ih =>
      cases rest with
      | nil => simp [joinLines, joinWith]
      | cons next rest =>
          rw [List.flatMap_cons, ← ih (List.cons_ne_nil next rest), joinLines, joinWith,
            List.append_assoc]
          rfl

theorem joinLines_splitLines (text : Text) : joinLines (splitLines text) = text :=
  List.append_cancel_right
    ((joinLines_concat (splitLines_ne_nil text)).trans (flatMap_splitLines text))

theorem carriageReturn_normalizeNewlines (source : Text) :
    '\r' ∉ normalizeNewlines source := by
  fun_induction normalizeNewlines source with
  | case1 => simp
  | case2 rest ih => simpa using ih
  | case3 c rest _ ih =>
      simp only [List.mem_cons, not_or]
      refine ⟨?_, ih⟩
      split
      · simp
      · next hc => exact Ne.symm hc

theorem normalizeNewlines_eq_self {text : Text} (h : '\r' ∉ text) :
    normalizeNewlines text = text := by
  fun_induction normalizeNewlines text with
  | case1 => rfl
  | case2 rest ih => exact absurd List.mem_cons_self h
  | case3 c rest _ ih =>
      simp only [List.mem_cons, not_or] at h
      rw [if_neg (Ne.symm h.1), ih h.2]

end Canonmark.Text
