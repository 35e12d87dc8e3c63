import Canonmark.Proofs.Printed.Starts
import Canonmark.Proofs.Source.Picked
import Canonmark.Proofs.Text.Basic
import Canonmark.Proofs.Text.FencedLines
import Canonmark.Source.BlockReader

/-!
# Plain lines

Lines that start no container, HTML, table, definition or metadata, wherever they stand. What
starts on them is found the same way in front of any text, and takes whole lines.
-/

namespace Canonmark.Source

open Printed (headAt)

def isPlainStart (c : Char) : Bool :=
  !Unicode.isWhitespace c && !Ascii.isDigit c &&
    !(['<', '>', '[', '|', ':', '*', '+', '-', '.', ')'].contains c)

/-- A blank line, or one that starts plainly behind three spaces at most. -/
def isPlainLine (line : Text) : Bool :=
  let content := line.dropWhile (· = ' ')
  line.all (fun c => !Unicode.isWhitespace c || c = ' ' || c = '\n') &&
    (Unicode.isBlank content ||
      (countWhile (· = ' ') line ≤ 3 && content.head?.any isPlainStart))

/-- A part of a line, its ending, and the lines behind it. Only the last line has no ending. -/
structure LineRest (part ending behind : Text) : Prop where
  spaces : ∀ c ∈ part, Unicode.isWhitespace c = true → c = ' '
  ends : ending = ['\n'] ∨ ending = [] ∧ behind = []

namespace LineRest

variable {part ending behind : Text} {p : Char → Bool}

theorem drop (h : LineRest part ending behind) (n : Nat) :
    LineRest (part.drop n) ending behind :=
  ⟨fun c hmem => h.spaces c (List.mem_of_mem_drop hmem), h.ends⟩

theorem feed (h : LineRest part ending behind) : '\n' ∉ part := fun hmem =>
  absurd (h.spaces _ hmem rfl) (by decide)

theorem carriage (h : LineRest part ending behind) : '\r' ∉ part := fun hmem =>
  absurd (h.spaces _ hmem rfl) (by decide)

theorem carriage_append (h : LineRest part ending behind) (hothers : '\r' ∉ behind) :
    '\r' ∉ part ++ (ending ++ behind) := by
  rcases h.ends with rfl | ⟨rfl, rfl⟩
  · simp [h.carriage, hothers]
  · simp [h.carriage]

theorem takeWhile (h : LineRest part ending behind) (hfeed : p '\n' = false) :
    (part ++ (ending ++ behind)).takeWhile p = part.takeWhile p := by
  rcases h.ends with rfl | ⟨rfl, rfl⟩
  · exact Text.takeWhile_line hfeed part behind
  · simp

theorem countWhile (h : LineRest part ending behind) (hfeed : p '\n' = false) :
    Source.countWhile p (part ++ (ending ++ behind)) = Source.countWhile p part :=
  congrArg List.length (h.takeWhile hfeed)

theorem countWhile_le (p : Char → Bool) (part : Text) :
    Source.countWhile p part ≤ part.length := (List.takeWhile_sublist p).length_le

theorem drop_append {n : Nat} (hle : n ≤ part.length) (ending behind : Text) :
    (part ++ (ending ++ behind)).drop n = part.drop n ++ (ending ++ behind) :=
  List.drop_append_of_le_length hle

theorem lineLength (h : LineRest part ending behind) :
    Source.lineLength (part ++ (ending ++ behind)) = part.length + ending.length := by
  have hfeed := h.feed
  induction part with
  | nil => rcases h.ends with rfl | ⟨rfl, rfl⟩ <;> rfl
  | cons c rest ih =>
      simp only [List.mem_cons, not_or] at hfeed
      have hlater := ih (h.drop 1) hfeed.2
      rw [List.cons_append, Source.lineLength, if_neg (Ne.symm hfeed.1), hlater, List.length_cons]
      omega

theorem drop_length (part ending behind : Text) :
    (part ++ (ending ++ behind)).drop (part.length + ending.length) = behind := by
  rw [← List.length_append, ← List.append_assoc, List.drop_left]

theorem eol?_nil (h : LineRest [] ending behind) :
    eol? (ending ++ behind) = some ending.length := by
  rcases h.ends with rfl | ⟨rfl, rfl⟩ <;> rfl

theorem blankLine?_nil (h : LineRest [] ending behind) :
    blankLine? (ending ++ behind) = some ending.length := by
  rcases h.ends with rfl | ⟨rfl, rfl⟩ <;> rfl

theorem eol?_eq_some (h : LineRest part ending behind) {n : Nat}
    (hfound : eol? (part ++ (ending ++ behind)) = some n) : part = [] ∧ n = ending.length := by
  cases part with
  | nil =>
      rw [List.nil_append, h.eol?_nil] at hfound
      exact ⟨rfl, (Option.some.inj hfound).symm⟩
  | cons c rest =>
      have hfeed := h.feed
      have hcarriage := h.carriage
      simp only [List.mem_cons, not_or] at hfeed hcarriage
      unfold eol? at hfound
      split at hfound <;> simp_all

theorem takeWhile_all (h : LineRest part ending behind) :
    (part ++ (ending ++ behind)).takeWhile (fun c => c ≠ '\n' && c ≠ '\r') = part := by
  rw [h.takeWhile rfl, List.takeWhile_eq_self_iff]
  intro c hmem
  have hfeed : c ≠ '\n' := fun hsame => h.feed (hsame ▸ hmem)
  have hcarriage : c ≠ '\r' := fun hsame => h.carriage (hsame ▸ hmem)
  simp [hfeed, hcarriage]

theorem blankLine?_eq_some (h : LineRest part ending behind) {n : Nat}
    (hfound : blankLine? (part ++ (ending ++ behind)) = some n) :
    n = part.length + ending.length := by
  have hcount := @LineRest.countWhile _ _ _ Ascii.isBlank h rfl
  have hdropped : (part ++ (ending ++ behind)).dropWhile Ascii.isBlank =
      part.drop (Source.countWhile Ascii.isBlank part) ++ (ending ++ behind) := by
    rw [← Text.drop_length_takeWhile, h.takeWhile rfl]
    exact drop_append (countWhile_le _ _) ending behind
  rw [blankLine?, hcount, hdropped] at hfound
  obtain ⟨n, heol, rfl⟩ := Option.map_eq_some_iff.mp hfound
  obtain ⟨hnone, rfl⟩ := (h.drop _).eol?_eq_some heol
  have := List.drop_eq_nil_iff.mp hnone
  have := countWhile_le Ascii.isBlank part
  omega

theorem rule?_eq_some (h : LineRest part ending behind) {n : Nat}
    (hfound : rule? (part ++ (ending ++ behind)) = some n) : n = part.length + ending.length := by
  unfold rule? at hfound
  split at hfound
  · cases hfound
  next c _ hshape =>
  split at hfound
  · next hmark =>
      have hfeed : '\n' ≠ c := by
        rintro rfl
        simp at hmark
      have hline := @LineRest.takeWhile _ _ _
        (fun d => decide (d = c) || decide (d = ' ') || decide (d = '\t')) h (by simp [hfeed])
      have hle := countWhile_le
        (fun d => decide (d = c) || decide (d = ' ') || decide (d = '\t')) part
      rw [Source.countWhile] at hle
      simp only [hline] at hfound
      split at hfound
      · next n heol =>
          rw [drop_append hle] at heol
          obtain ⟨hnone, rfl⟩ := (h.drop _).eol?_eq_some heol
          have := List.drop_eq_nil_iff.mp hnone
          split at hfound
          · have := Option.some.inj hfound
            omega
          · cases hfound
      · cases hfound
  · cases hfound

theorem underline?_eq_some (h : LineRest part ending behind) {level n : Nat}
    (hfound : underline? (part ++ (ending ++ behind)) = some (level, n)) :
    n = part.length + ending.length ∧ (part.head? = some '=' ∨ part.head? = some '-') := by
  unfold underline? at hfound
  split at hfound
  · cases hfound
  next c _ hshape =>
  split at hfound
  · next hmark =>
      have hmark : c = '=' ∨ c = '-' := by simpa using hmark
      have hfeed : decide ('\n' = c) = false := by rcases hmark with rfl | rfl <;> rfl
      have hcount := @LineRest.countWhile _ _ _ (fun d => decide (d = c)) h hfeed
      have hle := countWhile_le (fun d => decide (d = c)) part
      simp only [hcount, drop_append hle] at hfound
      obtain ⟨m, hblank, hsame⟩ := Option.map_eq_some_iff.mp hfound
      cases hsame
      have := (h.drop _).blankLine?_eq_some hblank
      rw [List.length_drop] at this
      refine ⟨by omega, ?_⟩
      cases part with
      | nil =>
          rcases h.ends with rfl | ⟨rfl, rfl⟩
          · cases hshape
            simp at hmark
          · cases hshape
      | cons d rest =>
          cases hshape
          simpa using hmark
  · cases hfound

theorem fence?_eq (h : LineRest part ending behind) :
    fence? (part ++ (ending ++ behind)) = fence? part := by
  cases part with
  | nil =>
      rcases h.ends with rfl | ⟨rfl, rfl⟩ <;> rfl
  | cons c rest =>
      have hfeed : '\n' ≠ c := fun hsame => h.feed (hsame ▸ List.mem_cons_self)
      have hcount := @LineRest.countWhile _ _ _ (fun d => decide (d = c)) h (by simpa using hfeed)
      have hdropped :=
        drop_append (countWhile_le (fun d => decide (d = c)) (c :: rest)) ending behind
      have hwhole := (h.drop (Source.countWhile (fun d => decide (d = c)) (c :: rest))).lineLength
      have halone : LineRest ((c :: rest).drop (Source.countWhile (fun d => decide (d = c))
          (c :: rest))) [] [] := ⟨(h.drop _).spaces, .inr ⟨rfl, rfl⟩⟩
      have hwhole' := halone.lineLength
      simp only [List.append_nil, List.length_nil, Nat.add_zero] at hwhole'
      rw [List.cons_append] at hcount hdropped ⊢
      simp only [fence?, hcount, hdropped, hwhole, hwhole']
      generalize (c :: rest).drop _ = info
      have hsame : (info ++ (ending ++ behind)).take (info.length + ending.length) =
          info ++ ending := by
        rw [← List.append_assoc, ← List.length_append, List.take_left]
      have hlast : c ∉ ending := by
        rcases h.ends with rfl | ⟨rfl, -⟩
        · simpa using Ne.symm hfeed
        · simp
      rw [hsame, List.take_length]
      simp [hlast]

theorem closingFence?_eq_some (h : LineRest part ending behind) (hsome : part ≠ []) {c : Char}
    (hfeed : '\n' ≠ c) {size n : Nat} :
    closingFence? c size (part ++ (ending ++ behind)) = some n ↔
      (size ≤ Source.countWhile (· = c) part ∧
        ∀ d ∈ part.drop (Source.countWhile (· = c) part), d = ' ') ∧ part.length = n := by
  have hcount := @LineRest.countWhile _ _ _ (fun d => decide (d = c)) h (by simpa using hfeed)
  have hle := countWhile_le (fun d => decide (d = c)) part
  have hempty : (part ++ (ending ++ behind)).isEmpty = false := by simp [hsome]
  simp only [closingFence?, hempty, hcount, drop_append hle, Bool.false_eq_true, if_false]
  generalize Source.countWhile (fun d => decide (d = c)) part = m at *
  by_cases hshort : m < size
  · rw [if_pos hshort]
    exact iff_of_false (by simp) fun hfound => absurd hfound.1.1 (Nat.not_le.mpr hshort)
  rw [if_neg hshort]
  have hspaces := @LineRest.countWhile _ _ _ (fun d => decide (d = ' ')) (h.drop m) rfl
  have hle' := countWhile_le (fun d => decide (d = ' ')) (part.drop m)
  simp only [hspaces]
  rw [← List.drop_drop, drop_append hle, drop_append hle']
  by_cases hall : ∀ d ∈ part.drop m, d = ' '
  · have hwhole : (part.drop m).takeWhile (fun d => decide (d = ' ')) = part.drop m :=
      List.takeWhile_eq_self_iff.mpr (by simpa using hall)
    have hlength : m + (part.length - m) = part.length := Nat.add_sub_cancel' hle
    rw [Source.countWhile, hwhole, List.drop_length, List.nil_append,
      eol?_nil ⟨by simp, h.ends⟩, Option.map_some, List.length_drop, hlength, Option.some.injEq]
    exact ⟨fun hsame => ⟨⟨Nat.not_lt.mp hshort, hall⟩, hsame⟩, fun hfound => hfound.2⟩
  · refine iff_of_false (fun hfound => ?_) fun hfound => hall hfound.1.2
    obtain ⟨length, heol, -⟩ := Option.map_eq_some_iff.mp hfound
    obtain ⟨hnone, -⟩ := ((h.drop m).drop _).eol?_eq_some heol
    rw [Source.countWhile, Text.drop_length_takeWhile, List.dropWhile_eq_nil_iff] at hnone
    exact absurd (by simpa using hnone) hall

end LineRest

structure PlainLine (indent : Nat) (body ending behind : Text) : Prop
    extends LineRest body ending behind where
  start : body = [] ∨ indent ≤ 3 ∧ ∃ c rest, body = c :: rest ∧ isPlainStart c = true

theorem exists_plainLine {line : Text} {rest : List Text} (hlines : Text.Lines (line :: rest))
    (hplain : isPlainLine line = true) :
    ∃ indent body ending, line = List.replicate indent ' ' ++ (body ++ ending) ∧
      PlainLine indent body ending rest.flatten := by
  obtain ⟨hnonempty, hinner, hlast, hlater⟩ := hlines
  obtain ⟨text, ending, rfl, hfeed, hends⟩ : ∃ text ending, line = text ++ ending ∧ '\n' ∉ text ∧
      (ending = ['\n'] ∨ ending = [] ∧ rest.flatten = []) := by
    by_cases hclosed : line.getLast? = some '\n'
    · obtain ⟨text, rfl⟩ := List.getLast?_eq_some_iff.mp hclosed
      rw [List.dropLast_concat] at hinner
      exact ⟨text, ['\n'], rfl, hinner, .inl rfl⟩
    · obtain rfl := hlast.resolve_right hclosed
      refine ⟨line, [], by simp, fun hmem => ?_, .inr ⟨rfl, rfl⟩⟩
      rw [← List.dropLast_append_getLast hnonempty, List.mem_append, List.mem_singleton] at hmem
      rcases hmem with hmem | hmem
      · exact hinner hmem
      · exact hclosed (hmem ▸ List.getLast?_eq_some_getLast hnonempty)
  have hsplit :
      text = List.replicate (countWhile (· = ' ') text) ' ' ++ text.dropWhile (· = ' ') := by
    have hspaces : text.takeWhile (· = ' ') = List.replicate (countWhile (· = ' ') text) ' ' :=
      List.eq_replicate_iff.mpr ⟨rfl, fun c hmem => by simpa using List.mem_takeWhile_imp hmem⟩
    rw [← hspaces, List.takeWhile_append_dropWhile]
  simp only [isPlainLine, Bool.and_eq_true, Bool.or_eq_true, Bool.not_eq_true', List.all_eq_true,
    decide_eq_true_eq] at hplain
  obtain ⟨hspaces, hstarts⟩ := hplain
  have hwhole : LineRest text ending rest.flatten := by
    refine ⟨fun c hmem hwhite => ?_, hends⟩
    rcases hspaces c (List.mem_append_left _ hmem) with (hvisible | hspace) | hnewline
    · rw [hwhite] at hvisible
      cases hvisible
    · exact hspace
    · exact absurd (hnewline ▸ hmem) hfeed
  have halone : LineRest text ending [] := ⟨hwhole.spaces, hends.imp_right fun h => ⟨h.1, rfl⟩⟩
  have hfront := @LineRest.takeWhile _ _ _ (fun c => decide (c = ' ')) halone rfl
  rw [List.append_nil] at hfront
  have hcontent : (text ++ ending).dropWhile (· = ' ') = text.dropWhile (· = ' ') ++ ending := by
    rw [← Text.drop_length_takeWhile, ← Text.drop_length_takeWhile, hfront,
      List.drop_append_of_le_length (List.takeWhile_sublist _).length_le]
  rw [hcontent, countWhile, hfront] at hstarts
  refine ⟨countWhile (· = ' ') text, text.dropWhile (· = ' '), ending, ?_, ⟨⟨?_, hends⟩, ?_⟩⟩
  · rw [← List.append_assoc, ← hsplit]
  · exact fun c hmem => hwhole.spaces c ((List.dropWhile_sublist _).mem hmem)
  · cases hbody : text.dropWhile (· = ' ') with
    | nil => exact .inl rfl
    | cons c inner =>
        rw [hbody, List.cons_append] at hstarts
        have hfirst : c ≠ ' ' := by
          rintro rfl
          have := List.head?_dropWhile_not (fun c => decide (c = ' ')) text
          simp [hbody] at this
        rcases hstarts with hblank | ⟨hfew, hstarts⟩
        · have hwhite : Unicode.isWhitespace c = true := by
            simp only [Unicode.isBlank, List.all_cons, Bool.and_eq_true] at hblank
            exact hblank.1
          have hmem : c ∈ text := (List.dropWhile_sublist _).mem (hbody ▸ List.mem_cons_self)
          exact absurd (hwhole.spaces c hmem hwhite) hfirst
        · exact .inr ⟨hfew, c, inner, rfl, by simpa using hstarts⟩

/-! ## Starts of lines -/

/-- No container, HTML, table, definition or metadata starts with `c`. -/
structure Unmarked (c : Char) : Prop where
  digit : Ascii.isDigit c = false
  opens : c ≠ '<' ∧ c ≠ '>' ∧ c ≠ '['
  separates : c ≠ '|' ∧ c ≠ ':' ∧ c ≠ '-'
  bullet : isBullet c = false

structure PlainStart (c : Char) : Prop extends Unmarked c where
  visible : Unicode.isWhitespace c = false

theorem plainStart {c : Char} (h : isPlainStart c = true) : PlainStart c := by
  simp only [isPlainStart, Bool.and_eq_true, Bool.not_eq_true', List.contains_eq_mem,
    decide_eq_false_iff_not, List.mem_cons, List.not_mem_nil, or_false, not_or] at h
  obtain ⟨⟨hvisible, hdigit⟩, hless, hgreater, hbracket, hpipe, hcolon, hstar, hplus, hhyphen, -⟩ :=
    h
  exact ⟨⟨hdigit, ⟨hless, hgreater, hbracket⟩, ⟨hpipe, hcolon, hhyphen⟩,
    by simp [isBullet, hhyphen, hplus, hstar]⟩, hvisible⟩

theorem unmarked_newline : Unmarked '\n' := ⟨rfl, by decide, by decide, rfl⟩

theorem PlainStart.isBlank {c : Char} (h : PlainStart c) : Ascii.isBlank c = false := by
  have hvisible := h.visible
  by_contra hblank
  simp only [Ascii.isBlank, Bool.not_eq_false, Bool.or_eq_true, decide_eq_true_eq] at hblank
  rcases hblank with ((rfl | rfl) | rfl) | rfl <;> cases hvisible

theorem PlainStart.eol? {c : Char} (h : PlainStart c) (rest : Text) :
    Source.eol? (c :: rest) = none := by
  have hvisible := h.visible
  unfold Source.eol?
  split <;> simp_all [Unicode.isWhitespace]

theorem takeColumns_indented {text : Text} (hfront : text.head? ≠ some ' ' ∧ text.head? ≠ some '\t')
    (taken stop columns n : Nat) :
    LineHead.takeColumns taken stop columns (List.replicate n ' ' ++ text) =
      (columns - n,
        ⟨List.replicate (n - columns) ' ' ++ text, taken + min columns n, stop, 0⟩) := by
  induction n generalizing taken columns with
  | zero => simpa using Printed.takeColumns_front hfront taken stop columns
  | succ n ih =>
      rw [List.replicate_succ, List.cons_append, LineHead.takeColumns]
      by_cases hnone : columns = 0
      · subst hnone
        simp [List.replicate_succ]
      · rw [if_neg hnone, if_pos rfl, ih]
        have hrest : n - (columns - 1) = n + 1 - columns := by omega
        have hcount : taken + 1 + min (columns - 1) n = taken + min columns (n + 1) := by omega
        rw [hrest, hcount, Nat.sub_sub, Nat.add_comm 1 n]

theorem takeMissing_eq (taken columns : Nat) (text : Text) :
    (headAt taken text).takeMissing columns = LineHead.takeColumns taken 0 columns text := by
  cases columns with
  | zero => cases text <;> rfl
  | succ columns => rfl

namespace PlainLine

variable {indent : Nat} {body ending behind : Text} (h : PlainLine indent body ending behind)
include h

theorem front : (body ++ (ending ++ behind)).head? ≠ some ' ' ∧
    (body ++ (ending ++ behind)).head? ≠ some '\t' := by
  rcases h.start with rfl | ⟨-, c, rest, rfl, hstarts⟩
  · rcases h.ends with rfl | ⟨rfl, rfl⟩ <;> simp
  · have hvisible := (plainStart hstarts).visible
    refine ⟨fun hsame => ?_, fun hsame => ?_⟩
    · obtain rfl : c = ' ' := by simpa using hsame
      cases hvisible
    · obtain rfl : c = '\t' := by simpa using hsame
      cases hvisible

theorem takeExactly (taken columns n : Nat) :
    (headAt taken (List.replicate n ' ' ++ (body ++ (ending ++ behind)))).takeExactly columns =
      (decide (columns ≤ n), headAt (taken + min columns n)
        (List.replicate (n - columns) ' ' ++ (body ++ (ending ++ behind)))) := by
  rw [LineHead.takeExactly, takeMissing_eq, takeColumns_indented h.front]
  simp [Nat.sub_eq_zero_iff_le, headAt]

theorem takeAll (taken n : Nat) :
    (headAt taken (List.replicate n ' ' ++ (body ++ (ending ++ behind)))).takeAll =
      headAt (taken + n) (body ++ (ending ++ behind)) := by
  have hspaces : ∀ c ∈ List.replicate n ' ', (decide (c = ' ') || decide (c = '\t')) = true := by
    intro c hmem
    rw [List.eq_of_mem_replicate hmem]
    rfl
  have hfront := h.front
  have hnone : (body ++ (ending ++ behind)).takeWhile
      (fun c => decide (c = ' ') || decide (c = '\t')) = [] := by
    cases htext : body ++ (ending ++ behind) with
    | nil => rfl
    | cons c rest =>
        rw [htext] at hfront
        have hspace : c ≠ ' ' := fun hsame => hfront.1 (hsame ▸ rfl)
        have htab : c ≠ '\t' := fun hsame => hfront.2 (hsame ▸ rfl)
        simp [hspace, htab]
  have hkept : (body ++ (ending ++ behind)).dropWhile
      (fun c => decide (c = ' ') || decide (c = '\t')) = body ++ (ending ++ behind) := by
    rw [← Text.drop_length_takeWhile, hnone]
    rfl
  simp only [LineHead.takeAll, headAt, countWhile, List.takeWhile_append_of_pos hspaces, hnone,
    List.dropWhile_append_of_pos hspaces, hkept, List.append_nil, List.length_replicate]

theorem indented (n : Nat) : LineRest (List.replicate n ' ' ++ body) ending behind := by
  refine ⟨fun c hmem hwhite => ?_, h.ends⟩
  rcases List.mem_append.mp hmem with hspace | hinner
  · exact List.eq_of_mem_replicate hspace
  · exact h.spaces c hinner hwhite

theorem takeUpTo (taken columns : Nat) :
    (headAt taken (List.replicate indent ' ' ++ (body ++ (ending ++ behind)))).takeUpTo columns =
      (min columns indent, headAt (taken + min columns indent)
        (List.replicate (indent - columns) ' ' ++ (body ++ (ending ++ behind)))) := by
  rw [LineHead.takeUpTo, takeMissing_eq, takeColumns_indented h.front]
  simp only [headAt, Prod.mk.injEq, and_true]
  omega

theorem blankLine?_eq : blankLine? (List.replicate indent ' ' ++ (body ++ (ending ++ behind))) =
    if body = [] then some (indent + ending.length) else none := by
  have hspaces : ∀ c ∈ List.replicate indent ' ', Ascii.isBlank c = true := by
    intro c hmem
    rw [List.eq_of_mem_replicate hmem]
    rfl
  rw [blankLine?, countWhile, List.dropWhile_append_of_pos hspaces,
    List.takeWhile_append_of_pos hspaces]
  rcases h.start with rfl | ⟨-, c, rest, rfl, hstarts⟩
  · have hnone : (ending ++ behind).dropWhile Ascii.isBlank = ending ++ behind ∧
        (ending ++ behind).takeWhile Ascii.isBlank = [] := by
      rcases h.ends with rfl | ⟨rfl, rfl⟩ <;> exact ⟨rfl, rfl⟩
    rw [List.nil_append, hnone.1, hnone.2, LineRest.eol?_nil ⟨by simp, h.ends⟩]
    simp [Nat.add_comm]
  · have hvisible := plainStart hstarts
    rw [List.cons_append, List.dropWhile_cons, hvisible.isBlank, if_neg Bool.false_ne_true,
      hvisible.eol?]
    rfl

theorem unmarked : ∀ c ∈ (body ++ (ending ++ behind)).head?, Unmarked c := by
  intro c hfirst
  rcases h.start with rfl | ⟨-, d, rest, rfl, hstarts⟩
  · rcases h.ends with rfl | ⟨rfl, rfl⟩
    · obtain rfl : '\n' = c := by simpa using hfirst
      exact unmarked_newline
    · simp at hfirst
  · obtain rfl : d = c := by simpa using hfirst
    exact (plainStart hstarts).toUnmarked

end PlainLine

theorem itemMarker?_unmarked {text : Text} (h : ∀ c ∈ text.head?, Unmarked c)
    (indent taken : Nat) : (headAt taken text).itemMarker? indent = none := by
  cases text with
  | nil => rfl
  | cons c rest =>
      have hunmarked := h c rfl
      simp only [LineHead.itemMarker?, headAt, hunmarked.bullet, Bool.false_eq_true, if_false,
        Printed.itemNumber?_none hunmarked.digit, Option.bind_none]

theorem PlainLine.openContainers {indent : Nat} {body ending behind : Text}
    (h : PlainLine indent body ending behind) (fuel : Nat) (reader : BlockReader) :
    BlockReader.openContainers fuel
        (headAt 0 (List.replicate indent ' ' ++ (body ++ (ending ++ behind)))) reader =
      (reader, some (headAt 0 (List.replicate indent ' ' ++ (body ++ (ending ++ behind))))) := by
  cases fuel with
  | zero => rfl
  | succ fuel =>
      rw [BlockReader.openContainers, h.takeUpTo]
      by_cases hdeep : 4 ≤ indent
      · simp only [Nat.min_eq_left hdeep, Nat.le_refl, if_true]
      have hnone : indent - 4 = 0 := by omega
      have hfew : ¬4 ≤ min 4 indent := by omega
      have hunmarked := h.unmarked
      have hfootnote : BlockReader.footnote? (headAt (0 + min 4 indent)
          (body ++ (ending ++ behind))) reader = none := by
        refine BlockReader.footnote?_eq_none _ _ fun _ rest hsame => ?_
        exact (hunmarked '[' (congrArg List.head? hsame)).opens.2.2 rfl
      have hquote : (headAt (0 + min 4 indent) (body ++ (ending ++ behind))).quoteMarker? =
          none := by
        unfold LineHead.quoteMarker?
        split
        · next hsame => exact absurd rfl (hunmarked '>' (congrArg List.head? hsame)).opens.2.1
        · rfl
      simp only [hfew, if_false, hnone, List.replicate_zero, List.nil_append, hfootnote,
        itemMarker?_unmarked hunmarked, hquote]

theorem PlainLine.separator? {indent : Nat} {body ending behind : Text}
    (h : PlainLine indent body ending behind) :
    Table.separator? (List.replicate indent ' ' ++ (body ++ (ending ++ behind))) = none := by
  rw [Table.separator?, Printed.start_eq, h.takeUpTo]
  by_cases hdeep : 3 < min 4 indent
  · simp only [hdeep, decide_true, Bool.true_or, if_true]
  have hfew : indent - 4 = 0 := by omega
  simp only [hfew, List.replicate_zero, List.nil_append, headAt]
  rcases h.start with rfl | ⟨-, c, rest, rfl, hstarts⟩
  · rcases h.ends with rfl | ⟨rfl, rfl⟩
    · simp [Table.separator?.columns?]
    · simp
  · have hstart := plainStart hstarts
    have hspace : c ≠ ' ' := by
      rintro rfl
      cases hstart.visible
    have hcolumns : Table.separator?.columns? 0 false true (c :: rest) = none := by
      rw [Table.separator?.columns?.eq_def]
      split <;> simp_all [hstart.separates]
    rw [if_neg (by simp; omega)]
    simp only [h.takeWhile_all, List.head?_cons, Option.some.injEq, hstart.separates.1, if_false,
      hcolumns]
    rfl

theorem LineRest.tableHead? {part ending behind : Text} (h : LineRest part ending behind)
    (hseparator : Table.separator? behind = none) (paired : Bool) :
    Table.head? [] paired (part ++ (ending ++ behind)) = none := by
  have heol := LineRest.eol?_nil ⟨by simp, h.ends⟩
  have hline := drop_append (Nat.le_refl part.length) ending behind
  rw [List.drop_length, List.nil_append] at hline
  have hwithin : LineHead.within [] behind = (true, LineHead.start behind) := rfl
  simp only [Table.head?, Source.countWhile, h.takeWhile_all, hline, heol, Option.getD_some,
    drop_length, hwithin, LineHead.start, hseparator, Option.bind_none, ite_self]

open FencedLines (stripQuotes_eq_self)

namespace PlainLine

variable {indent : Nat} {body ending behind : Text} (h : PlainLine indent body ending behind)
include h

theorem alone : PlainLine indent body ending [] :=
  ⟨⟨h.spaces, h.ends.imp_right fun hends => ⟨hends.1, rfl⟩⟩, h.start⟩

theorem content_eq : FencedLines.content (List.replicate indent ' ' ++ (body ++ ending)) =
    if body = [] then [] else body ++ ending := by
  have hfront := h.alone.front
  have hunmarked := h.alone.unmarked
  rw [List.append_nil] at hfront hunmarked
  have hspaces {p : Char → Bool} (hspace : p ' ' = true) :
      ∀ c ∈ List.replicate indent ' ', p c = true := by
    intro c hmem
    rwa [List.eq_of_mem_replicate hmem]
  have hquote : ((List.replicate indent ' ' ++ (body ++ ending)).dropWhile (· = ' ')).head? ≠
      some '>' := by
    rw [List.dropWhile_append_of_pos (hspaces rfl), List.dropWhile_eq_self_iff.mpr]
    · exact fun hsame => (hunmarked '>' hsame).opens.2.1 rfl
    · intro hsome
      have hfirst := hfront.1
      rw [List.head?_eq_getElem?, List.getElem?_eq_getElem hsome] at hfirst
      simpa using hfirst
  rw [FencedLines.content, stripQuotes_eq_self hquote, List.dropWhile_append_of_pos (hspaces rfl)]
  rcases h.start with rfl | ⟨-, c, rest, rfl, hstarts⟩
  · rcases h.ends with rfl | ⟨rfl, rfl⟩ <;> rfl
  · rw [List.cons_append, List.dropWhile_cons, (plainStart hstarts).visible]
    rfl

/-- The tracker finds the fence that the reader does. -/
theorem opening?_eq : FencedLines.opening? (List.replicate indent ' ' ++ (body ++ ending)) =
    (fence? body).map fun found => (found.2, found.1) := by
  rw [FencedLines.opening?, h.content_eq]
  cases body with
  | nil => rfl
  | cons c rest =>
      have hfeed : '\n' ≠ c := fun hsame => h.feed (hsame ▸ List.mem_cons_self)
      have hinner : LineRest rest ending [] := h.alone.toLineRest.drop 1
      have hrun := @LineRest.takeWhile _ _ _ (fun d => decide (d = c)) hinner (by simpa using hfeed)
      have hle : (rest.takeWhile fun d => decide (d = c)).length ≤ rest.length :=
        (List.takeWhile_sublist _).length_le
      have hlast : '\x60' ∉ ending := by
        rcases h.ends with rfl | ⟨rfl, -⟩ <;> simp
      have hcount : countWhile (fun d => decide (d = c)) (c :: rest) =
          (rest.takeWhile fun d => decide (d = c)).length + 1 := by
        simp [countWhile]
      have halone : LineRest (rest.drop (rest.takeWhile fun d => decide (d = c)).length) [] [] :=
        ⟨(hinner.drop _).spaces, .inr ⟨rfl, rfl⟩⟩
      have hwhole := halone.lineLength
      simp only [List.append_nil, List.length_nil, Nat.add_zero] at hrun hwhole
      rw [if_neg (by simp), List.cons_append]
      simp only [fence?, hcount, hrun, List.drop_succ_cons, hwhole, List.take_length,
        Nat.add_sub_cancel, List.drop_append_of_le_length hle]
      generalize rest.drop _ = info
      generalize (rest.takeWhile fun d => decide (d = c)).length = more
      have hmarked : (info ++ ending).contains '\x60' = info.contains '\x60' := by simp [hlast]
      rw [hmarked]
      by_cases hbacktick : c = '\x60'
      · subst hbacktick
        by_cases hfew : more + 1 < 3
        · simp [hfew, Nat.not_le.mpr hfew]
        · by_cases hmem : '\x60' ∈ info <;> simp [hfew, hmem, Nat.not_lt.mp hfew]
      · by_cases htilde : c = '~'
        · by_cases hfew : more + 1 < 3
          · simp [htilde, hfew, Nat.not_le.mpr hfew]
          · simp [htilde, hfew, Nat.not_lt.mp hfew]
        · simp [hbacktick, htilde]

theorem closes_eq {c : Char} (hfeed : '\n' ≠ c) {size : Nat} (hpos : 0 < size) :
    FencedLines.closes c size (List.replicate indent ' ' ++ (body ++ ending)) = true ↔
      body ≠ [] ∧ closingFence? c size (body ++ (ending ++ behind)) = some body.length := by
  rw [FencedLines.closes, h.content_eq]
  by_cases hblank : body = []
  · subst hblank
    have hnone : ¬size ≤ 0 := by omega
    simp [hnone]
  have hrun := @LineRest.takeWhile _ _ _ (fun d => decide (d = c)) h.alone.toLineRest
    (by simpa using hfeed)
  rw [List.append_nil] at hrun
  have hle := LineRest.countWhile_le (fun d => decide (d = c)) body
  rw [countWhile] at hle
  have hwhite : Unicode.isBlank ending = true := by
    rcases h.ends with rfl | ⟨rfl, -⟩ <;> rfl
  have hblank_iff (n : Nat) : Unicode.isBlank (body.drop n ++ ending) = true ↔
      ∀ d ∈ body.drop n, d = ' ' := by
    rw [Unicode.isBlank, List.all_append, Bool.and_eq_true, List.all_eq_true]
    constructor
    · exact fun hall d hmem => h.spaces d (List.mem_of_mem_drop hmem) (hall.1 d hmem)
    · refine fun hall => ⟨fun d hmem => ?_, hwhite⟩
      rw [hall d hmem]
      rfl
  simp only [if_neg hblank, hrun, List.drop_append_of_le_length hle]
  rw [h.toLineRest.closingFence?_eq_some hblank hfeed, Bool.and_eq_true, hblank_iff,
    decide_eq_true_eq, ← countWhile]
  exact ⟨fun hcloses => ⟨hblank, hcloses, rfl⟩, fun hfound => hfound.2.1⟩

end PlainLine

end Canonmark.Source
