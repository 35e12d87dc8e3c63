import Canonmark.Proofs.Source.PlainLine
import Canonmark.Proofs.Source.TokenLine
import Canonmark.Proofs.Text.FencedLines

/-!
# Fenced code in plain lines

What starts on a plain line ends with a line too. Fenced code reaches up to the line that closes
it, and no other leaf takes a line that opens a fence.
-/

namespace Canonmark.Source

open FencedLines (Inside Covers opening?)
open Printed (headAt takeExactly_headAt)

def LeafBlock.fenced (span : Span) : LeafBlock → List Span
  | .code (some _) _ => [span]
  | _ => []

structure PlainLines (lines : List Text) : Prop where
  areLines : Text.Lines lines
  plain : ∀ line ∈ lines, isPlainLine line = true

namespace PlainLines

variable {line : Text} {rest lines : List Text}

theorem tail (h : PlainLines (line :: rest)) : PlainLines rest :=
  ⟨h.areLines.2.2.2, fun line hmem => h.plain line (List.mem_cons_of_mem _ hmem)⟩

theorem filled (h : PlainLines lines) : ∀ line ∈ lines, line ≠ [] := by
  induction lines with
  | nil => simp
  | cons line rest ih => exact List.forall_mem_cons.mpr ⟨h.areLines.1, ih h.tail⟩

theorem length_le (h : PlainLines lines) : lines.length ≤ lines.flatten.length := by
  induction lines with
  | nil => exact Nat.le_refl _
  | cons line rest ih =>
      have hfirst := List.length_pos_iff.mpr h.areLines.1
      have hlater := ih h.tail
      rw [List.flatten_cons, List.length_append, List.length_cons]
      omega

theorem suffix (h : PlainLines lines) {later : List Text} (hsuffix : later <:+ lines) :
    PlainLines later := by
  obtain ⟨passed, rfl⟩ := hsuffix
  induction passed with
  | nil => exact h
  | cons line passed ih => exact ih h.tail

theorem carriage (h : PlainLines lines) : '\r' ∉ lines.flatten := by
  intro hmem
  obtain ⟨line, hinside, hmem⟩ := List.mem_flatten.mp hmem
  have hplain := h.plain line hinside
  simp only [isPlainLine, Bool.and_eq_true, List.all_eq_true] at hplain
  exact absurd (hplain.1 _ hmem) (by decide)

theorem exists_plainLine (h : PlainLines (line :: rest)) : ∃ indent body ending,
    line = List.replicate indent ' ' ++ (body ++ ending) ∧
      PlainLine indent body ending rest.flatten :=
  Source.exists_plainLine h.areLines (h.plain line List.mem_cons_self)

theorem separator? (h : PlainLines lines) : Table.separator? lines.flatten = none := by
  cases lines with
  | nil => rfl
  | cons line rest =>
      obtain ⟨indent, body, ending, rfl, hplain⟩ := h.exists_plainLine
      have hnone := hplain.separator?
      simpa only [List.flatten_cons, List.append_assoc] using hnone

end PlainLines

inductive Skips : (position : Nat) → List Text → (next : Nat) → List Text → Prop
  | refl (position : Nat) (lines : List Text) : Skips position lines position lines
  | line {position next : Nat} {line : Text} {rest later : List Text}
      (hnone : opening? line = none) (hothers : Skips (position + line.length) rest next later) :
      Skips position (line :: rest) next later

namespace Skips

variable {position next : Nat} {lines later : List Text} {spans : List Span}

theorem of_eq {place : Nat} (h : Skips position lines next later) (hsame : place = position) :
    Skips place lines next later := hsame ▸ h

theorem covers (h : Skips position lines next later) (hcovers : Covers next later spans) :
    Covers position lines spans := by
  induction h with
  | refl => exact hcovers
  | line hnone _ ih => exact .plain hnone (ih hcovers)

theorem suffix (h : Skips position lines next later) : later <:+ lines := by
  induction h with
  | refl => exact List.suffix_refl _
  | line hnone _ ih => exact ih.trans (List.suffix_cons _ _)

end Skips

/-! ## Leaves -/

theorem fence?_of_head {c : Char} {rest : Text} (hbacktick : c ≠ '\x60') (htilde : c ≠ '~') :
    fence? (c :: rest) = none := by
  simp [fence?, hbacktick, htilde]

theorem fence?_spec {part : Text} {c : Char} {size : Nat} (h : fence? part = some (size, c)) :
    (c = '\x60' ∨ c = '~') ∧ 3 ≤ size ∧ size ≤ part.length := by
  unfold fence? at h
  split at h
  · cases h
  next d rest =>
  simp only at h
  split at h
  · next hmark =>
      split at h
      · cases h
      · next hlong =>
          cases h
          simp only [Bool.or_eq_true, decide_eq_true_eq, not_or, Nat.not_lt] at hmark hlong
          exact ⟨hmark, hlong.1, LineRest.countWhile_le _ _⟩
  · cases h

namespace LeafReader

variable {extensions : Extensions} {part ending : Text} {lines : List Text}

/-- What the line behind one of text does: it underlines it, ends it or goes on with it. -/
theorem paragraphFrom_step {behind : Text} (h : LineRest part ending behind)
    (hcarriage : '\r' ∉ behind) {indented : Bool} {next : LineHead}
    (hcolumns : (headAt 0 behind).takeExactly 4 = (indented, next)) (start fuel : Nat)
    (tokens : List Token) (position : Nat) :
    (∃ level n heading, indented = false ∧ underline? next.rest = some (level, n) ∧
      paragraphFrom extensions [] start (fuel + 1) tokens position (part ++ (ending ++ behind)) =
        ⟨.heading level heading,
          .upTo start (position + (part.length + ending.length) + next.taken + n),
          position + (part.length + ending.length) + next.taken + n, next.rest.drop n⟩) ∨
    (∃ paragraph,
      paragraphFrom extensions [] start (fuel + 1) tokens position (part ++ (ending ++ behind)) =
        ⟨.paragraph false paragraph, .upTo start (position + (part.length + ending.length)),
          position + (part.length + ending.length), behind⟩) ∨
    (∃ further, (indented = false → interrupts extensions [] true next.rest = false) ∧
      next.takeAll.atEol = false ∧
      paragraphFrom extensions [] start (fuel + 1) tokens position (part ++ (ending ++ behind)) =
        paragraphFrom extensions [] start fuel further
          (position + (part.length + ending.length) + next.takeAll.taken) next.takeAll.rest) := by
  obtain ⟨hplace, hrest⟩ :=
    TokenLine.read_line extensions tokens position (h.carriage_append hcarriage)
  rw [h.lineLength] at hplace hrest
  rw [LineRest.drop_length] at hrest
  rw [paragraphFrom]
  generalize TokenLine.read extensions tokens position _ = line at hplace hrest
  obtain ⟨read, place', rest', lineBreak⟩ := line
  obtain rfl : rest' = behind := hrest
  obtain rfl : place' = position + (part.length + ending.length) := hplace
  have hwithin : LineHead.within [] rest' = (true, headAt 0 rest') := rfl
  simp only [hwithin, hcolumns, Bool.true_and]
  cases hunderlined : if (!indented) = true then underline? next.rest else none with
  | some found =>
      obtain ⟨level, n⟩ := found
      cases indented with
      | true => cases hunderlined
      | false => exact .inl ⟨level, n, _, rfl, hunderlined, rfl⟩
  | none =>
      simp only
      split
      · exact .inr (.inl ⟨_, rfl⟩)
      · next hgoes =>
          simp only [Bool.or_eq_true, Bool.and_eq_true, not_or, Bool.not_eq_true] at hgoes
          refine .inr (.inr ⟨_, fun hflat => ?_, hgoes.2, rfl⟩)
          simpa [hflat] using hgoes.1

theorem exists_paragraphFrom (hplain : PlainLines lines) (h : LineRest part ending lines.flatten)
    (start : Nat) {fuel : Nat} (henough : lines.length < fuel) (tokens : List Token)
    (position : Nat) : ∃ later,
      (paragraphFrom extensions [] start fuel tokens position
        (part ++ (ending ++ lines.flatten))).rest = later.flatten ∧
      Skips (position + (part.length + ending.length)) lines
        (paragraphFrom extensions [] start fuel tokens position
          (part ++ (ending ++ lines.flatten))).position later ∧
      ∀ span, (paragraphFrom extensions [] start fuel tokens position
          (part ++ (ending ++ lines.flatten))).leaf.fenced span = [] := by
  induction lines generalizing part ending fuel tokens position with
  | nil =>
      obtain ⟨fuel, rfl⟩ : ∃ n, fuel = n + 1 := ⟨fuel - 1, by omega⟩
      have hcolumns := @takeExactly_headAt [] (by simp) 0 4
      rcases paragraphFrom_step h hplain.carriage hcolumns start fuel tokens position with
        ⟨_, _, _, -, hunderlined, -⟩ | ⟨_, hread⟩ | ⟨_, -, hgoes, -⟩
      · cases hunderlined
      · rw [hread]
        exact ⟨[], rfl, .refl _ _, fun _ => rfl⟩
      · cases hgoes
  | cons next rest ih =>
      obtain ⟨fuel, rfl⟩ : ∃ n, fuel = n + 1 := ⟨fuel - 1, by omega⟩
      obtain ⟨indent, body, ending', rfl, hline⟩ := hplain.exists_plainLine
      have htext : ((List.replicate indent ' ' ++ (body ++ ending')) :: rest).flatten =
          List.replicate indent ' ' ++ (body ++ (ending' ++ rest.flatten)) := by simp
      have hcolumns := hline.takeExactly 0 4 indent
      rw [← htext] at hcolumns
      rcases paragraphFrom_step h hplain.carriage hcolumns start fuel tokens position with
        ⟨level, n, _, hflat, hunderlined, hread⟩ | ⟨_, hread⟩ | ⟨_, hgoesOn, hfilled, hread⟩
      · have hshallow : indent - 4 = 0 := by
          have := of_decide_eq_false hflat
          omega
        simp only [hshallow, List.replicate_zero, List.nil_append] at hunderlined hread
        obtain ⟨rfl, hfirst⟩ := hline.underline?_eq_some hunderlined
        have hunfenced : fence? body = none := by
          cases body with
          | nil => simp at hfirst
          | cons c inner =>
              have hmark : c = '=' ∨ c = '-' := by simpa using hfirst
              exact fence?_of_head (by rcases hmark with rfl | rfl <;> decide)
                (by rcases hmark with rfl | rfl <;> decide)
        rw [hread]
        refine ⟨rest, LineRest.drop_length _ _ _, .line ?_ ?_, fun _ => rfl⟩
        · rw [hline.opening?_eq, hunfenced, Option.map_none]
        · refine (Skips.refl _ _).of_eq ?_
          simp only [headAt, List.length_append, List.length_replicate]
          omega
      · rw [hread]
        exact ⟨_, rfl, .refl _ _, fun _ => rfl⟩
      · rw [hline.takeAll] at hfilled hread
        rcases hline.start with rfl | ⟨hfew, c, inner, hsame, hstarts⟩
        · rcases hline.ends with rfl | ⟨rfl, hends⟩
          · cases hfilled
          · simp [headAt, LineHead.atEol, hends] at hfilled
        · have hshallow : indent - 4 = 0 := by omega
          have hgoesOn := hgoesOn (by simpa using Nat.lt_succ_of_le hfew)
          simp only [hshallow, List.replicate_zero, List.nil_append, headAt] at hgoesOn
          have hunfenced : fence? body = none := by
            rw [← hline.toLineRest.fence?_eq]
            simp only [interrupts, startsBlock, Bool.or_eq_false_iff, Option.isSome_eq_false_iff,
              Option.isNone_iff_eq_none] at hgoesOn
            exact hgoesOn.1.1.1.1.1.2
          obtain ⟨later, hbehind, hskips, hcodeless⟩ := ih hplain.tail hline.toLineRest
            (Nat.lt_of_succ_lt_succ henough) _ _
          rw [hread]
          refine ⟨later, hbehind, .line ?_ ?_, hcodeless⟩
          · rw [hline.opening?_eq, hunfenced, Option.map_none]
          · refine hskips.of_eq ?_
            simp only [headAt, List.length_append, List.length_replicate]
            omega

theorem heading_line {behind : Text} (h : LineRest part ending behind) (hcarriage : '\r' ∉ behind)
    {level : Nat} (hfound : headingLevel? (part ++ (ending ++ behind)) = some level)
    (position : Nat) :
    (heading extensions position level (part ++ (ending ++ behind))).position =
        position + (part.length + ending.length) ∧
      (heading extensions position level (part ++ (ending ++ behind))).rest = behind ∧
      ∀ span, (heading extensions position level
        (part ++ (ending ++ behind))).leaf.fenced span = [] := by
  have hhashes : level = countWhile (fun c => decide (c = '#')) part := by
    simp only [headingLevel?, h.countWhile (p := fun c => decide (c = '#')) rfl] at hfound
    exact (Option.some.inj (Option.ite_none_right_eq_some.mp hfound).2).symm
  have hle : level ≤ part.length := hhashes ▸ LineRest.countWhile_le _ part
  rw [heading, LineRest.drop_append hle]
  have hinner := h.drop level
  have hlength : (part.drop level).length = part.length - level := List.length_drop
  generalize part.drop level = text at hinner hlength
  cases hends : eol? (text ++ (ending ++ behind)) with
  | some n =>
      obtain ⟨rfl, rfl⟩ := hinner.eol?_eq_some hends
      simp only [List.nil_append, List.length_nil] at hlength ⊢
      refine ⟨by omega, ?_, fun _ => rfl⟩
      exact List.drop_left
  | none =>
      have hblanks := @LineRest.countWhile _ _ _ Ascii.isBlank hinner rfl
      have hle' := LineRest.countWhile_le Ascii.isBlank text
      simp only [hblanks, LineRest.drop_append hle']
      have hline := hinner.drop (countWhile Ascii.isBlank text)
      obtain ⟨hplace, hrest⟩ := TokenLine.read_line extensions []
        (position + level + countWhile Ascii.isBlank text) (hline.carriage_append hcarriage)
      rw [hline.lineLength] at hplace hrest
      rw [LineRest.drop_length] at hrest
      refine ⟨hplace.trans ?_, hrest, fun _ => rfl⟩
      rw [List.length_drop]
      omega

/-- A line of fenced code closes it or goes on with it. -/
theorem fencedFrom_step {text : Text} {indent : Nat} {found indented : Bool}
    {content closing : LineHead} (hfirst : (headAt 0 text).takeExactly indent = (found, content))
    (hsecond : content.takeExactly (4 - indent) = (indented, closing)) (c : Char) (size fuel : Nat)
    (pieces : List LocatedPiece) (position : Nat) :
    (∃ n, indented = false ∧ closingFence? c size closing.rest = some n ∧
      fencedFrom [] indent c size (fuel + 1) pieces position text =
        (pieces, position + closing.taken + n,
          position + closing.taken + n + (blankLine? (closing.rest.drop n)).getD 0,
          (closing.rest.drop n).drop ((blankLine? (closing.rest.drop n)).getD 0))) ∨
    (∃ further, (indented = false → closingFence? c size closing.rest = none) ∧
      fencedFrom [] indent c size (fuel + 1) pieces position text =
        fencedFrom [] indent c size fuel further
          (position + content.taken + lineLength content.rest)
          (content.rest.drop (lineLength content.rest))) := by
  have hwithin : LineHead.within [] text = (true, headAt 0 text) := rfl
  rw [fencedFrom]
  simp only [hwithin, hfirst, hsecond]
  cases indented with
  | true => exact .inr ⟨_, by simp, rfl⟩
  | false =>
      simp only [Bool.false_eq_true, if_false]
      cases hcloses : closingFence? c size closing.rest with
      | some n => exact .inl ⟨n, trivial, rfl, rfl⟩
      | none => exact .inr ⟨_, fun _ => rfl, rfl⟩

/-- The tracker closes fenced code on the line on which the reader does, unless the text ends. -/
theorem fencedFrom_line {c : Char} (hfeed : '\n' ≠ c) {size : Nat} (hpos : 0 < size)
    {indent n : Nat} (hshallow : indent < 4) {body behind line : Text}
    (hsame : line = List.replicate n ' ' ++ (body ++ ending))
    (hplain : PlainLine n body ending behind) (fuel : Nat) (pieces : List LocatedPiece)
    (position : Nat) :
    (∃ stop, FencedLines.closes c size line = true ∧ position < stop ∧
      stop ≤ position + line.length ∧
      fencedFrom [] indent c size (fuel + 1) pieces position (line ++ behind) =
        (pieces, stop, position + line.length, behind)) ∨
    (FencedLines.closes c size line = false ∧ behind = [] ∧
      fencedFrom [] indent c size (fuel + 1) pieces position (line ++ behind) =
        (pieces, position + line.length, position + line.length, [])) ∨
    (∃ further, FencedLines.closes c size line = false ∧
      fencedFrom [] indent c size (fuel + 1) pieces position (line ++ behind) =
        fencedFrom [] indent c size fuel further (position + line.length) behind) := by
  have htext : line ++ behind = List.replicate n ' ' ++ (body ++ (ending ++ behind)) := by
    rw [hsame, List.append_assoc, List.append_assoc]
  have hlength : line.length = n + body.length + ending.length := by simp [hsame, Nat.add_assoc]
  have hclosing := hplain.closes_eq hfeed hpos
  rw [← hsame] at hclosing
  have hfirst := hplain.takeExactly 0 indent n
  rw [← htext] at hfirst
  have hsecond := hplain.takeExactly (0 + min indent n) (4 - indent) (n - indent)
  rcases fencedFrom_step hfirst hsecond c size fuel pieces position with
    ⟨k, hflat, hcloses, hread⟩ | ⟨further, hgoesOn, hread⟩
  · have hfew := of_decide_eq_false hflat
    have hnone : n - indent - (4 - indent) = 0 := by omega
    have htaken : 0 + min indent n + min (4 - indent) (n - indent) = n := by omega
    simp only [hnone, htaken, List.replicate_zero, List.nil_append, headAt] at hcloses hread
    by_cases hblank : body = []
    · subst hblank
      rw [List.nil_append] at hcloses hread
      have hunclosed := Bool.eq_false_iff.mpr fun hends => (hclosing.mp hends).1 rfl
      rcases hplain.ends with rfl | ⟨rfl, rfl⟩
      · have hnone : countWhile (fun d => decide (d = c)) ('\n' :: behind) = 0 := by
          simp [countWhile, hfeed]
        simp only [closingFence?, List.cons_append, List.nil_append, List.isEmpty_cons, hnone,
          hpos, Bool.false_eq_true, if_false, if_true] at hcloses
        cases hcloses
      · obtain rfl : 0 = k := Option.some.inj hcloses
        refine .inr (.inl ⟨hunclosed, rfl, hread.trans ?_⟩)
        simp [blankLine?, eol?, countWhile, hlength]
    · obtain ⟨-, rfl⟩ := (hplain.toLineRest.closingFence?_eq_some hblank hfeed).mp hcloses
      have hwide := List.length_pos_iff.mpr hblank
      rw [LineRest.drop_append (Nat.le_refl _), List.drop_length, List.nil_append] at hread
      have heol := LineRest.blankLine?_nil ⟨by simp, hplain.ends⟩
      refine .inl ⟨position + n + body.length, hclosing.mpr ⟨hblank, hcloses⟩, by omega, by omega,
        ?_⟩
      rw [hread, heol, Option.getD_some, List.drop_left, hlength]
      simp only [Nat.add_assoc]
  · have hwhole := (hplain.indented (n - indent)).lineLength
    have hrest := LineRest.drop_length (List.replicate (n - indent) ' ' ++ body) ending behind
    simp only [List.append_assoc, List.length_append, List.length_replicate] at hwhole hrest
    have hplace : position + (0 + min indent n) + (n - indent + body.length + ending.length) =
        position + line.length := by omega
    simp only [headAt, hwhole, hrest, hplace] at hread
    refine .inr (.inr ⟨further, Bool.eq_false_iff.mpr fun hends => ?_, hread⟩)
    obtain ⟨hsome, hcloses⟩ := hclosing.mp hends
    have hfew : n ≤ 3 := (hplain.start.resolve_left hsome).1
    have hnone : n - indent - (4 - indent) = 0 := by omega
    have hflat := hgoesOn (decide_eq_false (by omega))
    simp only [hnone, List.replicate_zero, List.nil_append, headAt] at hflat
    cases hflat.symm.trans hcloses

theorem exists_fencedFrom {c : Char} (hfeed : '\n' ≠ c) {size : Nat} (hpos : 0 < size)
    {indent : Nat}
    (hshallow : indent < 4) (hplain' : PlainLines lines) {fuel : Nat}
    (henough : lines.length < fuel)
    (pieces : List LocatedPiece) (position : Nat) :
    ∃ body later found stop, lines = body ++ later ∧
      fencedFrom [] indent c size fuel pieces position lines.flatten =
        (found, stop, position + body.flatten.length, later.flatten) ∧
      Inside c size position body later stop := by
  induction lines generalizing fuel pieces position with
  | nil =>
      obtain ⟨fuel, rfl⟩ : ∃ n, fuel = n + 1 := ⟨fuel - 1, by omega⟩
      have hfirst := @takeExactly_headAt [] (by simp) 0 indent
      have hsecond := @takeExactly_headAt [] (by simp) 0 (4 - indent)
      rcases fencedFrom_step hfirst hsecond c size fuel pieces position with
        ⟨n, -, hcloses, hread⟩ | ⟨_, hgoesOn, -⟩
      · obtain rfl : 0 = n := Option.some.inj hcloses
        exact ⟨[], [], pieces, position, rfl, hread, .ended position⟩
      · have hflat : decide (4 - indent = 0) = false := decide_eq_false (by omega)
        cases hgoesOn hflat
  | cons line rest ih =>
      obtain ⟨fuel, rfl⟩ : ∃ n, fuel = n + 1 := ⟨fuel - 1, by omega⟩
      obtain ⟨n, content, ending, hsame, hplain⟩ := hplain'.exists_plainLine
      have halone : ([line] : List Text).flatten.length = line.length := by simp
      rw [List.flatten_cons]
      rcases fencedFrom_line hfeed hpos hshallow hsame hplain fuel pieces position with
        ⟨stop, hcloses, hlt, hle, hread⟩ | ⟨hgoesOn, hlast, hread⟩ | ⟨further, hgoesOn, hread⟩
      · exact ⟨[line], rest, pieces, stop, rfl, halone.symm ▸ hread, .closed rest hcloses hlt hle⟩
      · have hnone : rest = [] := by
          cases rest with
          | nil => rfl
          | cons next rest => simp [hplain'.tail.areLines.1] at hlast
        subst hnone
        exact ⟨[line], [], pieces, _, rfl, halone.symm ▸ hread, .line hgoesOn (.ended _)⟩
      · obtain ⟨body, later, found, stop, rfl, hcode, hinside⟩ := ih hplain'.tail
          (Nat.lt_of_succ_lt_succ henough) further _
        refine ⟨line :: body, later, found, stop, rfl, hread.trans (hcode.trans ?_),
          .line hgoesOn hinside⟩
        rw [List.flatten_cons, List.length_append, Nat.add_assoc]

theorem exists_fencedCode (hplain : PlainLines lines) (h : LineRest part ending lines.flatten)
    {c : Char} {size indent : Nat} (hfound : fence? part = some (size, c)) (hshallow : indent < 4)
    (position : Nat) :
    ∃ body later info pieces span, lines = body ++ later ∧
      fencedCode [] indent position c size (part ++ (ending ++ lines.flatten)) =
        ⟨.code (some info) pieces, span,
          position + (part.length + ending.length) + body.flatten.length, later.flatten⟩ ∧
      span.start = position ∧
      Inside c size (position + (part.length + ending.length)) body later span.stop := by
  obtain ⟨hmark, hlong, hle⟩ := fence?_spec hfound
  have hfeed : '\n' ≠ c := by rcases hmark with rfl | rfl <;> decide
  have hbehind := h.drop size
  have hblanks := @LineRest.countWhile _ _ _ Ascii.isBlank hbehind rfl
  have hle' := LineRest.countWhile_le Ascii.isBlank (part.drop size)
  have hwritten := (hbehind.drop (countWhile Ascii.isBlank (part.drop size))).lineLength
  have hnext := LineRest.drop_length
    ((part.drop size).drop (countWhile Ascii.isBlank (part.drop size))) ending lines.flatten
  have henough : lines.length < (part ++ (ending ++ lines.flatten)).length + 1 := by
    have := hplain.length_le
    simp only [List.length_append]
    omega
  obtain ⟨body, later, pieces, stop, hsame, hcode, hinside⟩ := exists_fencedFrom hfeed
    (show 0 < size by omega) hshallow hplain henough [] (position + (part.length + ending.length))
  have hplace : position + size + countWhile Ascii.isBlank (part.drop size) +
      (((part.drop size).drop (countWhile Ascii.isBlank (part.drop size))).length +
        ending.length) = position + (part.length + ending.length) := by
    rw [List.length_drop] at hle'
    rw [List.length_drop, List.length_drop]
    omega
  simp only [fencedCode, LineRest.drop_append hle, hblanks, LineRest.drop_append hle', hwritten,
    hnext, hplace, hcode]
  have hle := hinside.bounds.1
  refine ⟨body, later, _, _, _, hsame, rfl, rfl, ?_⟩
  rwa [Span.stop_upTo_of_le (by omega)]

end LeafReader

end Canonmark.Source
