import Canonmark.Text.Basic
import Mathlib.Data.List.DropRight
import Mathlib.Data.List.TakeWhile

/-!
# Texts and their lines

Texts are cut at the end of a run of characters, and into lines. Each line but the last ends with
its line feed and has no other.
-/

namespace Canonmark.Text

theorem drop_length_takeWhile (p : Char → Bool) (text : Text) :
    text.drop (text.takeWhile p).length = text.dropWhile p := by
  induction text with
  | nil => rfl
  | cons c rest ih =>
      by_cases hc : p c = true
      · simpa [hc] using ih
      · simp [hc]

theorem takeWhile_stop {p : Char → Bool} {c : Char} (h : p c = false) (front behind : Text) :
    (front ++ c :: behind).takeWhile p = front.takeWhile p := by
  induction front with
  | nil => simp [h]
  | cons d rest ih => simp only [List.cons_append, List.takeWhile_cons, ih]

theorem dropWhile_stop {p : Char → Bool} {c : Char} (h : p c = false) (front behind : Text) :
    (front ++ c :: behind).dropWhile p = front.dropWhile p ++ c :: behind := by
  rw [List.dropWhile_append]
  split
  · next hempty => simp [List.isEmpty_iff.mp hempty, h]
  · rfl

theorem takeWhile_line {p : Char → Bool} (hp : p '\n' = false) (line behind : Text) :
    (line ++ '\n' :: behind).takeWhile p = line.takeWhile p :=
  takeWhile_stop hp line behind

theorem takeWhile_of_stop {p : Char → Bool} {front behind : Text} (hall : ∀ c ∈ front, p c = true)
    (hstops : ∀ c ∈ behind.head?, p c = false) : (front ++ behind).takeWhile p = front := by
  rw [List.takeWhile_append_of_pos hall]
  cases behind with
  | nil => simp
  | cons c rest => simp [hstops c rfl]

theorem splitAtFirst?_of_notMem {c : Char} {before : Text} (h : c ∉ before) (after : Text) :
    splitAtFirst? c (before ++ c :: after) = some (before, after) := by
  induction before with
  | nil => simp [splitAtFirst?]
  | cons d before ih =>
      obtain ⟨hother, h⟩ := not_or.mp (List.mem_cons.not.mp h)
      rw [List.cons_append, splitAtFirst?, if_neg (Ne.symm hother), ih h]
      rfl

theorem splitAtFirst?_eq_none {c : Char} {text : Text} (h : c ∉ text) :
    splitAtFirst? c text = none := by
  induction text with
  | nil => rfl
  | cons d rest ih =>
      obtain ⟨hother, h⟩ := not_or.mp (List.mem_cons.not.mp h)
      rw [splitAtFirst?, if_neg (Ne.symm hother), ih h]
      rfl

theorem exists_run (p : Char → Bool) (text : Text) :
    ∃ front behind, text = front ++ behind ∧ (∀ c ∈ front, p c = true) ∧
      ∀ c ∈ behind.head?, p c = false := by
  refine ⟨text.takeWhile p, text.dropWhile p, (List.takeWhile_append_dropWhile).symm,
    fun c hmem => List.mem_takeWhile_imp hmem, fun c hmem => ?_⟩
  have hstop := List.head?_dropWhile_not p text
  rwa [Option.mem_def.mp hmem] at hstop

theorem length_slice {text : Text} {start stop : Nat} (hle : start ≤ stop)
    (hinside : stop ≤ text.length) : ((Span.upTo start stop).slice text).length = stop - start := by
  rw [Span.slice_upTo, List.length_take, List.length_drop]
  omega

theorem slice_append (text : Text) {start middle stop : Nat} (hfirst : start ≤ middle)
    (hsecond : middle ≤ stop) :
    (Span.upTo start middle).slice text ++ (Span.upTo middle stop).slice text =
      (Span.upTo start stop).slice text := by
  have hwhole : stop - start = (middle - start) + (stop - middle) := by omega
  have hbehind : text.drop middle = (text.drop start).drop (middle - start) := by
    rw [List.drop_drop, Nat.add_sub_cancel' hfirst]
  rw [Span.slice_upTo, Span.slice_upTo, Span.slice_upTo, hwhole, List.take_add, hbehind]

theorem dropEndWhile_eq (p : Char → Bool) (text : Text) :
    dropEndWhile p text = text.rdropWhile p := rfl

theorem length_dropEndWhile_le (p : Char → Bool) (text : Text) :
    (dropEndWhile p text).length ≤ text.length := by
  rw [dropEndWhile, List.length_reverse, ← @List.length_reverse _ text]
  exact (List.dropWhile_suffix p).length_le

theorem dropEndWhile_append {p : Char → Bool} (body : Text) {ending : Text}
    (h : ∀ c ∈ ending, p c = true) : dropEndWhile p (body ++ ending) = dropEndWhile p body := by
  rw [dropEndWhile, List.reverse_append, List.dropWhile_append_of_pos (by simpa using h)]
  rfl

theorem dropEndWhile_concat {p : Char → Bool} {c : Char} (h : p c = true) (text : Text) :
    dropEndWhile p (text ++ [c]) = dropEndWhile p text :=
  dropEndWhile_append text (by simpa using h)

theorem dropEndWhile_of_last {p : Char → Bool} {text : Text}
    (h : ∀ c ∈ text.getLast?, p c = false) : dropEndWhile p text = text := by
  rw [dropEndWhile_eq, List.rdropWhile_eq_self_iff]
  intro hsome
  simp [h _ (List.getLast_mem_getLast? hsome)]

theorem dropEndWhile_lt {p : Char → Bool} {text : Text} {c : Char} (hlast : c ∈ text.getLast?)
    (h : p c = true) : (dropEndWhile p text).length < text.length := by
  obtain ⟨body, rfl⟩ := List.getLast?_eq_some_iff.mp hlast
  rw [dropEndWhile_concat h, List.length_append]
  exact Nat.lt_succ_of_le (length_dropEndWhile_le p body)

theorem exists_trimBoth (p : Char → Bool) (text : Text) :
    ∃ front behind, text = front ++ trimBoth p text ++ behind ∧ (∀ c ∈ front, p c = true) ∧
      ∀ c ∈ behind, p c = true := by
  refine ⟨text.takeWhile p, (text.dropWhile p).rtakeWhile p, ?_,
    fun _ hmem => List.mem_takeWhile_imp hmem, fun _ hmem => List.mem_rtakeWhile_imp hmem⟩
  rw [trimBoth, dropEndWhile_eq, List.append_assoc, List.rdropWhile_append_rtakeWhile,
    List.takeWhile_append_dropWhile]

/-- Each text is a line with its line feed; the last one may lack it. -/
def Lines : List Text → Prop
  | [] => True
  | line :: rest =>
      line ≠ [] ∧ '\n' ∉ line.dropLast ∧ (rest = [] ∨ line.getLast? = some '\n') ∧ Lines rest

theorem flatten_lineSegments (text : Text) : (lineSegments text).flatten = text := by
  induction text with
  | nil => rfl
  | cons c rest ih =>
      rw [lineSegments]
      split
      · next hc => simp [ih, hc]
      · cases hlines : lineSegments rest with
        | nil => simpa [hlines] using ih
        | cons line lines => simpa [hlines] using ih

theorem lines_lineSegments (text : Text) : Lines (lineSegments text) := by
  induction text with
  | nil => trivial
  | cons c rest ih =>
      rw [lineSegments]
      split
      · next hc => exact ⟨by simp, by simp, .inr rfl, ih⟩
      · next hc =>
          cases hlines : lineSegments rest with
          | nil => exact ⟨by simp, by simp, .inl rfl, trivial⟩
          | cons line lines =>
              rw [hlines] at ih
              obtain ⟨hne, hinner, hlast, hrest⟩ := ih
              refine ⟨by simp, ?_, ?_, hrest⟩
              · rw [List.dropLast_cons_of_ne_nil hne]
                simp [Ne.symm hc, hinner]
              · rwa [List.getLast?_cons_of_ne_nil hne]

theorem lineSegments_newline {line : Text} (h : '\n' ∉ line) (rest : Text) :
    lineSegments (line ++ '\n' :: rest) = (line ++ ['\n']) :: lineSegments rest := by
  induction line with
  | nil => rfl
  | cons c line ih =>
      simp only [List.mem_cons, not_or] at h
      rw [List.cons_append, lineSegments, if_neg (Ne.symm h.1), ih h.2]
      rfl

theorem lineSegments_line {line : Text} (hfilled : line ≠ []) (hnewline : '\n' ∉ line) :
    lineSegments line = [line] := by
  induction line with
  | nil => exact absurd rfl hfilled
  | cons c rest ih =>
      simp only [List.mem_cons, not_or] at hnewline
      rw [lineSegments, if_neg (Ne.symm hnewline.1)]
      cases rest with
      | nil => rfl
      | cons d rest => rw [ih (by simp) hnewline.2]

theorem lineSegments_append {lines : List Text} {rest : Text} (h : Lines lines)
    (hended : rest = [] ∨ ∀ line ∈ lines.getLast?, line.getLast? = some '\n') :
    lineSegments (lines.flatten ++ rest) = lines ++ lineSegments rest := by
  induction lines with
  | nil => rfl
  | cons line more ih =>
      obtain ⟨hfilled, hinner, hlast, hlater⟩ := h
      obtain ⟨body, c, rfl⟩ := (List.eq_nil_or_concat line).resolve_left hfilled
      rw [List.concat_eq_append] at hinner hlast hended ⊢
      rw [List.dropLast_concat] at hinner
      rw [List.getLast?_concat] at hlast
      by_cases hnewline : c = '\n'
      · subst hnewline
        have honward := ih hlater (hended.imp_right fun h line hmem => h line (by
          rw [List.getLast?_cons, Option.mem_def.mp hmem]
          rfl))
        rw [List.flatten_cons, List.append_assoc, List.append_assoc, List.singleton_append,
          lineSegments_newline hinner, honward, List.cons_append]
      · obtain rfl : more = [] := hlast.resolve_right fun h => hnewline (by simpa using h)
        obtain rfl : rest = [] := hended.resolve_right fun h => hnewline (by simpa using h)
        simpa [lineSegments] using
          @lineSegments_line (body ++ [c]) (by simp) (by simp [hinner, Ne.symm hnewline])

theorem lineSegments_flatten {lines : List Text} (h : Lines lines) :
    lineSegments lines.flatten = lines := by
  simpa [lineSegments] using lineSegments_append h (.inl rfl)

theorem Lines.left {first second : List Text} (h : Lines (first ++ second)) : Lines first := by
  induction first with
  | nil => trivial
  | cons line rest ih =>
      obtain ⟨hfilled, hinner, hlast, hlater⟩ := h
      exact ⟨hfilled, hinner, hlast.imp_left fun hnone => (List.append_eq_nil_iff.mp hnone).1,
        ih hlater⟩

def lineBefore (text : Text) (position : Nat) : Text :=
  (text.take position).reverse.takeWhile (· ≠ '\n')

theorem mem_lineBefore {before line behind : Text} {c : Char} (hline : '\n' ∉ line)
    (hc : c ∈ line) :
    c ∈ lineBefore (before ++ (line ++ behind)) (before.length + line.length) := by
  have htake :
      (before ++ (line ++ behind)).take (before.length + line.length) = before ++ line := by
    rw [List.take_length_add_append, List.take_left]
  rw [lineBefore, htake, List.reverse_append, List.takeWhile_append_of_pos]
  · exact List.mem_append_left _ (List.mem_reverse.mpr hc)
  · intro d hd
    have hne : d ≠ '\n' := fun h => hline (h ▸ List.mem_reverse.mp hd)
    simpa using hne

end Canonmark.Text
