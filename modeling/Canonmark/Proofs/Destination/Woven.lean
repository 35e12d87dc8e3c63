import Canonmark.Proofs.Destination.Phase
import Canonmark.Proofs.Destination.Searched

/-!
# Wrapped sources are woven

The scanner finds destinations where the automaton expects them: behind an unescaped `](`, and
before the parenthesis that closes it. Angle brackets in front of a destination on its line would
hide it from the automaton and are excluded.
-/

namespace Canonmark.SpacedDestination

namespace Phase

/-- Phases from which a bracket may follow, and in which the scanner goes on. -/
def Fresh (phase : Phase) : Prop := phase = .plain false ∨ phase = .bracket ∨ phase = .gap

theorem Fresh.outside {phase : Phase} (h : phase.Fresh) : phase.Outside := by
  rcases h with rfl | rfl | rfl <;> trivial

theorem Fresh.ne_closed {phase : Phase} (h : phase.Fresh) : phase ≠ .closed := by
  rcases h with rfl | rfl | rfl <;> simp

theorem Fresh.next {phase : Phase} (h : phase.Fresh) {c : Char} (hback : c ≠ '\\')
    (hangle : c ≠ '<') : (phase.next c).Fresh := by
  unfold Phase.next
  rcases h with rfl | rfl | rfl <;> simp only [behind, Fresh] <;> split_ifs <;> simp_all

theorem fresh_of_last {phase : Phase} (hout : phase.Outside) (h : phase ≠ .closed) {c : Char}
    (hc : c = '\x60' ∨ c = ')') : phase.next c = .plain false := by
  have hspace : Unicode.isWhitespace c = false := by rcases hc with rfl | rfl <;> rfl
  cases phase with
  | plain escaped => rcases hc with rfl | rfl <;> cases escaped <;> rfl
  | bracket => rcases hc with rfl | rfl <;> rfl
  | gap => rcases hc with rfl | rfl <;> rfl
  | inside onward => exact hout.elim
  | tail angle => exact hout.elim
  | closed => exact absurd rfl h

theorem Fresh.run_escape {phase : Phase} (h : phase.Fresh) {c : Char} (hc : c ≠ '<') :
    phase.run ['\\', c] = .plain false := by
  have hback : phase.next '\\' = .plain true := by rcases h with rfl | rfl | rfl <;> rfl
  rw [run_cons, hback]
  simp [Phase.next, hc]

theorem Fresh.run_open {phase : Phase} (h : phase.Fresh) {space : Text}
    (hspace : ∀ c ∈ space, Unicode.isWhitespace c = true) (hnewline : '\n' ∉ space) :
    phase.run (']' :: '(' :: space) = .gap := by
  have hbracket : phase.next ']' = .bracket := by rcases h with rfl | rfl | rfl <;> rfl
  have hgap : Phase.next '(' .bracket = .gap := rfl
  rw [run_cons, run_cons, hbracket, hgap]
  clear hgap hbracket
  induction space with
  | nil => rfl
  | cons c rest ih =>
      obtain ⟨hc, hrest⟩ := not_or.mp (mt List.mem_cons.mpr hnewline)
      have hnext : Phase.next c .gap = .gap := by
        simp [Phase.next, Ne.symm hc, hspace c (by simp)]
      rw [run_cons, hnext]
      exact ih (fun c hc => hspace c (by simp [hc])) hrest

theorem run_inside {text : Text} {onward : Bool} (hne : text ≠ []) (hnewline : '\n' ∉ text)
    (hlast : ∀ c ∈ text.getLast?, goesOn c = false) :
    Phase.run text (.inside onward) = .inside false := by
  induction text generalizing onward with
  | nil => exact absurd rfl hne
  | cons c rest ih =>
      obtain ⟨hc, hrest⟩ := not_or.mp (mt List.mem_cons.mpr hnewline)
      have hnext : Phase.next c (.inside onward) = .inside (goesOn c) := by
        simp [Phase.next, Ne.symm hc]
      rw [run_cons, hnext]
      cases rest with
      | nil => simpa using hlast
      | cons d more => exact ih (by simp) hrest (by simpa using hlast)

theorem run_tail_outside {text : Text} {angle : Bool} (hnewline : '\n' ∉ text) :
    (Phase.run (text ++ [')']) (.tail angle)).Outside := by
  induction text generalizing angle with
  | nil => cases angle <;> trivial
  | cons c rest ih =>
      obtain ⟨hc, hrest⟩ := not_or.mp (mt List.mem_cons.mpr hnewline)
      rw [List.cons_append, run_cons]
      by_cases hparen : c = ')'
      · refine Outside.run ?_ _
        cases angle <;> simp [Phase.next, hparen, Outside]
      · simpa [Phase.next, Ne.symm hc, hparen] using ih hrest

theorem run_tail {text : Text} (hnewline : '\n' ∉ text) (hangle : '<' ∉ text) :
    Phase.run (text ++ [')']) (.tail false) = .plain false := by
  induction text with
  | nil => rfl
  | cons c rest ih =>
      obtain ⟨hc, hrest⟩ := not_or.mp (mt List.mem_cons.mpr hnewline)
      obtain ⟨hc', hangle'⟩ := not_or.mp (mt List.mem_cons.mpr hangle)
      rw [List.cons_append, run_cons]
      by_cases hparen : c = ')'
      · have hnext : Phase.next c (.tail false) = .plain false := by simp [Phase.next, hparen]
        have hplain : (Phase.plain false).Outside := trivial
        rw [hnext, run_append]
        exact fresh_of_last (hplain.run rest) (run_ne_closed hplain (by simp) hangle') (.inr rfl)
      · simpa [Phase.next, Ne.symm hc, Ne.symm hc', hparen] using ih hrest hangle'

end Phase

namespace Woven

theorem inside_append {text : Text} {onward : Bool}
    (hinner : '\n' ∉ text ∧ '\r' ∉ text ∧ '<' ∉ text ∧ '>' ∉ text) {rest : Marked}
    (h : Woven (Phase.run text (.inside onward)) rest) :
    Woven (.inside onward) (Marked.plain text ++ rest) := by
  induction text generalizing onward with
  | nil => exact h
  | cons c more ih =>
      simp only [List.mem_cons, not_or] at hinner
      obtain ⟨⟨hn, hns⟩, ⟨hr, hrs⟩, ⟨ho, hos⟩, hc, hcs⟩ := hinner
      refine (cons_false_iff _ _ _).mpr ⟨⟨Ne.symm hn, Ne.symm hr, Ne.symm ho, Ne.symm hc⟩, ?_⟩
      have hnext : Phase.next c (.inside onward) = .inside (goesOn c) := by
        simp [Phase.next, Ne.symm hn]
      rw [Phase.run_cons, hnext] at h
      rw [hnext]
      exact ih ⟨hns, hrs, hos, hcs⟩ h

theorem tail_append {text : Text} {angle : Bool} (hnewline : '\n' ∉ text) (hcr : '\r' ∉ text)
    {rest : Marked} (h : Woven (Phase.run (text ++ [')']) (.tail angle)) rest) :
    Woven (.tail angle) (Marked.plain (text ++ [')']) ++ rest) := by
  induction text generalizing angle with
  | nil => exact (cons_false_iff _ _ _).mpr ⟨⟨by decide, by decide⟩, h⟩
  | cons c more ih =>
      obtain ⟨hc, hmore⟩ := not_or.mp (mt List.mem_cons.mpr hnewline)
      obtain ⟨hc', hmore'⟩ := not_or.mp (mt List.mem_cons.mpr hcr)
      refine (cons_false_iff _ _ _).mpr ⟨⟨Ne.symm hc, Ne.symm hc'⟩, ?_⟩
      rw [List.cons_append, Phase.run_cons] at h
      by_cases hparen : c = ')'
      · have hout : (Phase.next c (.tail angle)).Outside := by
          cases angle <;> simp [Phase.next, hparen, Phase.Outside]
        exact plain_append hout (by simp [hmore']) h
      · have hnext : Phase.next c (.tail angle) = .tail (angle || c = '<') := by
          simp [Phase.next, Ne.symm hc, hparen]
        rw [hnext] at h ⊢
        exact ih hmore hmore' h

end Woven

structure LineEnd (text : Text) (rest : Marked) : Prop where
  newline : '\n' ∉ text.dropLast
  carriageReturn : '\r' ∉ text
  ends : rest = [] ∨ text.getLast? = some '\n'
  woven : Woven (.plain false) rest

namespace LineEnd

theorem skip {first second : Text} {rest : Marked} (h : LineEnd (first ++ second) rest)
    (hne : second ≠ []) : '\n' ∉ first ∧ '\r' ∉ first ∧ LineEnd second rest := by
  have hnewline := h.newline
  rw [List.dropLast_append_of_ne_nil hne, List.mem_append, not_or] at hnewline
  have hcr := h.carriageReturn
  rw [List.mem_append, not_or] at hcr
  refine ⟨hnewline.1, hcr.1, hnewline.2, hcr.2, ?_, h.woven⟩
  rcases h.ends with hrest | hlast
  · exact .inl hrest
  · right
    rwa [List.getLast?_append_of_ne_nil _ hne] at hlast

theorem plain {text : Text} {rest : Marked} (h : LineEnd text rest) {phase : Phase}
    (hout : phase.Outside) : Woven phase (Marked.plain text ++ rest) := by
  refine Woven.plain_append hout h.carriageReturn ?_
  rcases h.ends with rfl | hlast
  · exact (Woven.nil_iff _).mpr (hout.run text)
  · obtain ⟨before, rfl⟩ : ∃ before, text = before ++ ['\n'] :=
      ⟨text.dropLast, (List.dropLast_append_getLast? _ hlast).symm⟩
    simpa using h.woven

theorem plain_tail {c : Char} {text : Text} {rest : Marked} (hc : c ≠ '\n')
    (h : LineEnd (c :: text) rest) {phase : Phase} (hout : phase.Outside) :
    Woven phase (Marked.plain text ++ rest) := by
  cases text with
  | nil =>
      have hrest : rest = [] := by simpa [hc] using h.ends
      subst hrest
      exact (Woven.nil_iff _).mpr hout
  | cons d more => exact (@skip [c] (d :: more) rest h (by simp)).2.2.plain hout

end LineEnd

def NoAngles : (angle : Bool) → Marked → Prop
  | _, [] => True
  | angle, (c, true) :: rest => (c = '<' → angle = false) ∧ NoAngles angle rest
  | angle, (c, false) :: rest => NoAngles (angle || c = '<') rest

theorem noAngles_plain (angle : Bool) (first : Text) (second : Marked) :
    NoAngles angle (Marked.plain first ++ second) ↔
      NoAngles (angle || first.contains '<') second := by
  induction first generalizing angle with
  | nil => simp [Marked.plain]
  | cons c first ih =>
      have hstep : NoAngles angle (Marked.plain (c :: first) ++ second) ↔
          NoAngles (angle || c = '<') (Marked.plain first ++ second) := Iff.rfl
      rw [hstep, ih, Bool.or_assoc, List.contains_cons, BEq.comm]
      rfl

theorem NoAngles.skip {angle : Bool} {first front : Text} {second rest : Marked}
    (hsplit : second = Marked.plain front ++ ('<', true) :: rest)
    (h : NoAngles angle (Marked.plain first ++ second)) :
    '<' ∉ first ∧ NoAngles false second := by
  rw [noAngles_plain] at h
  have hnone : (angle || first.contains '<') = false := by
    rw [hsplit, noAngles_plain] at h
    exact (Bool.or_eq_false_iff.mp (h.1 rfl)).1
  rw [hnone] at h
  exact ⟨by simpa using (Bool.or_eq_false_iff.mp hnone).2, h⟩

theorem noAngles_weave {limit position : Nat} {text : Text} {spans : List Span} {angle : Bool}
    (hascending : Ascending limit position spans)
    (h : ∀ span ∈ spans, angle = false ∧ '<' ∉ text.take (span.start - position)) :
    NoAngles angle (weave position text spans) := by
  induction spans generalizing position text angle with
  | nil =>
      have hplain := noAngles_plain angle text []
      rw [List.append_nil] at hplain
      exact hplain.mpr trivial
  | cons span rest ih =>
      obtain ⟨hstarts, hfilled, -, hlater⟩ := hascending
      obtain ⟨hhere, hothers⟩ := List.forall_mem_cons.mp h
      rw [weave, noAngles_plain]
      refine ⟨fun _ => by simpa using hhere, ?_⟩
      rw [noAngles_plain]
      refine ⟨fun h => absurd h (by decide), ih hlater fun other hmem => ?_⟩
      have hbehind := (hlater.mem_bounds other hmem).1
      have hfirst := @Text.slice_append text 0 (span.start - position) (span.stop - position)
        (Nat.zero_le _) (by omega)
      have hinner : Span.upTo (span.start - position) (span.stop - position) = span.back position :=
        (span.back position).upTo_eq
      rw [hinner] at hfirst
      have hwhole := @Text.slice_append text 0 (span.stop - position) (other.start - position)
        (Nat.zero_le _) (by omega)
      rw [← hfirst] at hwhole
      have hwidth : other.start - position - (span.stop - position) = other.start - span.stop := by
        omega
      have hfree := (hothers other hmem).2
      have htake (n : Nat) : Span.slice (.upTo 0 n) text = text.take n := Span.slice_upTo 0 n text
      rw [← htake, ← hwhole, List.mem_append, List.mem_append, not_or, not_or] at hfree
      obtain ⟨⟨hfront, hinside⟩, htail⟩ := hfree
      rw [htake] at hfront
      rw [Span.slice_upTo, hwidth] at htail
      exact ⟨by simpa [hhere.1, hfront] using hinside, htail⟩

/-! ## Searched lines -/

section

variable {depth : Nat} {second rest : Marked} {phase : Phase}

theorem woven_skip {first : Text} (hlater : Searched depth second) (houtside : phase.Outside)
    (hline : LineEnd (first ++ second.kept) rest)
    (hangles : NoAngles false (Marked.plain first ++ second))
    (honward : '<' ∉ first → LineEnd second.kept rest → NoAngles false second →
      Woven (phase.run first) (second ++ rest)) :
    Woven phase (Marked.plain first ++ second ++ rest) := by
  rcases hlater.front with hwhole | ⟨front, behind, more, hsplit⟩
  · rw [hwhole, ← Marked.plain_append]
    exact hline.plain houtside
  · obtain ⟨-, hcarriageReturn, hbehindFirst⟩ := hline.skip (by simp [hsplit])
    obtain ⟨hfree, hangles⟩ := hangles.skip hsplit
    rw [List.append_assoc]
    exact Woven.plain_append houtside hcarriageReturn (honward hfree hbehindFirst hangles)

theorem woven_wrapped {space destination tail : Text} (hlater : Searched depth second)
    (hfound : Found space destination tail) (hfresh : phase.Fresh)
    (hline : LineEnd (Marked.kept (wrappedLink space destination tail ++ second)) rest)
    (hangles : NoAngles false (wrappedLink space destination tail ++ second))
    (honward : LineEnd second.kept rest → NoAngles false second →
      Woven (.plain false) (second ++ rest)) :
    Woven phase (wrappedLink space destination tail ++ second ++ rest) := by
  obtain ⟨d, more, rfl, hvisible⟩ := hfound.first
  have hends : ∀ c ∈ (d :: more).getLast?, goesOn c = false := fun c hmem => by
    simp [goesOn, hfound.last c hmem]
  have hkept : Marked.kept (wrappedLink space (d :: more) tail ++ second)
      = (']' :: '(' :: (space ++ (d :: more) ++ tail)) ++ (')' :: second.kept) := by simp
  rw [hkept] at hline
  obtain ⟨hnewline, hcarriageReturn, hparen⟩ := hline.skip (by simp)
  simp only [List.mem_cons, List.mem_append, not_or] at hnewline hcarriageReturn
  obtain ⟨-, -, ⟨hnewlineSpace, hnewlineInside⟩, hnewlineTail⟩ := hnewline
  obtain ⟨-, -, ⟨hreturnSpace, hreturnInside⟩, hreturnTail⟩ := hcarriageReturn
  rw [wrappedLink_append] at hangles ⊢
  rw [List.append_assoc]
  refine Woven.plain_append hfresh.outside (by simp [hreturnSpace]) ?_
  rw [hfresh.run_open hfound.blank hnewlineSpace]
  simp only [List.cons_append, List.append_assoc]
  refine (Woven.gap_cons_iff _ _).mpr ⟨rfl, ⟨d, _, rfl, hvisible⟩, ?_⟩
  refine Woven.inside_append ⟨by simpa using hnewlineInside, by simpa using hreturnInside,
    hfound.unbracketed⟩ ?_
  rw [Phase.run_inside (by simp) (by simpa using hnewlineInside) hends]
  refine (Woven.inside_cons_iff _ _).mpr ⟨rfl, ?_, ?_⟩
  · cases tail with
    | nil => exact ⟨')', _, rfl, .inr rfl⟩
    | cons c others => exact ⟨c, _, rfl, .inl (isTail_cons hfound.tail)⟩
  · refine Woven.tail_append hnewlineTail hreturnTail ?_
    rcases hlater.front with hwhole | ⟨front, behind, more, hsplit⟩
    · rw [hwhole]
      exact hparen.plain_tail (by decide) (Phase.run_tail_outside hnewlineTail)
    · obtain ⟨-, -, hline⟩ := @LineEnd.skip [')'] second.kept rest hparen (by simp [hsplit])
      rw [noAngles_plain] at hangles
      have hangles := hangles.2
      rw [noAngles_plain] at hangles
      obtain ⟨hfree, hangles⟩ := hangles.2.skip hsplit
      rw [Phase.run_tail hnewlineTail (by simpa using hfree)]
      exact honward hline hangles

/-- The brackets around what is found on a line stand where the automaton expects them. -/
theorem Searched.woven {marked : Marked} (h : Searched depth marked) (hfresh : phase.Fresh)
    (hline : LineEnd marked.kept rest) (hangles : NoAngles false marked) :
    Woven phase (marked ++ rest) := by
  induction h generalizing phase with
  | nil => exact hline.plain hfresh.outside
  | backslash => exact hline.plain hfresh.outside
  | @escape depth more c hlater ih =>
      rw [Marked.kept_append, Marked.kept_plain] at hline
      refine woven_skip hlater hfresh.outside hline hangles fun hfree hline hangles => ?_
      simp only [List.mem_cons, List.not_mem_nil, or_false, not_or] at hfree
      rw [hfresh.run_escape (Ne.symm hfree.2)]
      exact ih (.inl rfl) hline hangles
  | @code depth front more hfirst hspan hlater ih =>
      obtain ⟨before, rfl⟩ := codeSpanLength_ends hfirst hspan
      rw [Marked.kept_append, Marked.kept_plain] at hline
      refine woven_skip hlater hfresh.outside hline hangles fun hfree hline hangles => ?_
      rw [List.mem_append, not_or] at hfree
      have hgoesOn := Phase.run_ne_closed hfresh.outside hfresh.ne_closed hfree.1
      rw [Phase.run_append, Phase.run_cons, Phase.run_nil,
        Phase.fresh_of_last (hfresh.outside.run before) hgoesOn (.inl rfl)]
      exact ih (.inl rfl) hline hangles
  | opens hlater ih =>
      rw [Marked.kept_append, Marked.kept_plain] at hline
      refine woven_skip hlater hfresh.outside hline hangles fun _ hline hangles => ?_
      exact ih (@Phase.Fresh.next _ hfresh '[' (by decide) (by decide)) hline hangles
  | unclosed hnested hnone hlater ih =>
      rw [Marked.kept_append, Marked.kept_plain] at hline
      refine woven_skip hlater hfresh.outside hline hangles fun _ hline hangles => ?_
      rw [@Phase.Fresh.run_open _ hfresh [] (by simp) (by simp)]
      exact ih (.inr (.inr rfl)) hline hangles
  | @left depth inside more hnested hpassed hnone hlater ih =>
      rw [Marked.kept_append, Marked.kept_plain] at hline
      refine woven_skip hlater hfresh.outside hline hangles fun hfree hline hangles => ?_
      rw [← List.cons_append, ← List.cons_append] at hfree ⊢
      rw [List.mem_append, not_or] at hfree
      have hgoesOn := Phase.run_ne_closed hfresh.outside hfresh.ne_closed hfree.1
      rw [Phase.run_append, Phase.run_cons, Phase.run_nil,
        Phase.fresh_of_last (hfresh.outside.run _) hgoesOn (.inr rfl)]
      exact ih (.inl rfl) hline hangles
  | wrapped hnested hpassed hfound hlater ih =>
      exact woven_wrapped hlater hfound hfresh hline hangles (ih (.inl rfl))
  | @other depth c more hordinary hclosing hlater ih =>
      rw [Marked.kept_append, Marked.kept_plain] at hline
      refine woven_skip hlater hfresh.outside hline hangles fun hfree hline hangles => ?_
      exact ih (@Phase.Fresh.next _ hfresh c hordinary.1 (by simpa [eq_comm] using hfree)) hline
        hangles

end

/-! ## Sources -/

/-- No angle bracket stands in front of a wrapped destination on its line. -/
def NoAngleBefore (source : Text) (spans : List Span) : Prop :=
  ∀ span ∈ spans, '<' ∉ Text.lineBefore source span.start

theorem noAngles_line {before line behind : Text} {found : List Span}
    (hline : '\n' ∉ line.dropLast)
    (hfound : Ascending (before.length + line.length) before.length found)
    (hangle : NoAngleBefore (before ++ (line ++ behind)) found) :
    ∀ span ∈ found, '<' ∉ line.take (span.start - before.length) := by
  intro span hspan hmem
  obtain ⟨hstart, hnonempty, hstop⟩ := hfound.mem_bounds span hspan
  have hlength : (line.take (span.start - before.length)).length = span.start - before.length :=
    List.length_take_of_le (by omega)
  have hnewline : '\n' ∉ line.take (span.start - before.length) := fun h => by
    rw [List.dropLast_eq_take] at hline
    exact hline (List.mem_of_mem_take (i := span.start - before.length) (by
      rwa [List.take_take, Nat.min_eq_left (by omega)]))
  have hbefore := @Text.mem_lineBefore before _ (line.drop (span.start - before.length) ++ behind)
    _ hnewline hmem
  rw [← List.append_assoc (line.take _), List.take_append_drop, hlength,
    Nat.add_sub_cancel' hstart] at hbefore
  exact hangle span hspan hbefore

theorem woven_onLines (state : FencedLines.State) (before : Text) (lines : List Text)
    (hlines : Text.Lines lines) (hcr : '\r' ∉ lines.flatten)
    (hangle : NoAngleBefore (before ++ lines.flatten) (onLines state before.length lines)) :
    Woven (.plain false)
      (weave before.length lines.flatten (onLines state before.length lines)) := by
  induction lines generalizing state before with
  | nil => exact (Woven.nil_iff _).mpr trivial
  | cons line rest ih =>
      obtain ⟨-, hnewline, hlast, hrest⟩ := hlines
      rw [List.flatten_cons, List.mem_append, not_or] at hcr
      have hlength : before.length + line.length = (before ++ line).length := by simp
      have hothers := onLines_ascending (FencedLines.step state line).1 (before ++ line).length rest
      have hwoven := ih (FencedLines.step state line).1 (before ++ line) hrest hcr.2
        fun span hspan => by
          have := hangle span (by rw [onLines_cons, hlength]; exact List.mem_append_right _ hspan)
          rwa [List.flatten_cons, ← List.append_assoc] at this
      rw [onLines_cons, List.flatten_cons, hlength] at hangle
      rw [onLines_cons, List.flatten_cons, hlength]
      have hnone : rest = [] →
          onLines (FencedLines.step state line).1 (before ++ line).length rest = [] := by
        rintro rfl
        rfl
      generalize onLines (FencedLines.step state line).1 (before ++ line).length rest = others at *
      have hend : LineEnd line (weave (before ++ line).length rest.flatten others) := by
        refine ⟨hnewline, hcr.1, ?_, hwoven⟩
        rcases hlast with rfl | hlast
        · exact .inl (by rw [hnone rfl]; rfl)
        · exact .inr hlast
      rcases Bool.eq_false_or_eq_true (FencedLines.step state line).2 with hfenced | hfenced
      · rw [if_pos hfenced, List.nil_append, weave_skip (hlength ▸ hothers)]
        rw [hlength]
        exact hend.plain trivial
      · rw [hfenced] at hangle ⊢
        have hfound := onLine_ascending line.length 0 before.length line
        rw [if_neg (by simp), weave_append hfound (hlength ▸ hothers), hlength]
        have hline := noAngles_line hnewline hfound
          fun span hspan => hangle span (List.mem_append_left _ hspan)
        refine (searched_onLine _ _ _ _ (Nat.le_refl _)).woven (.inl rfl) ?_
          (noAngles_weave hfound fun span hspan => ⟨rfl, hline span hspan⟩)
        rwa [kept_weave hfound]

theorem woven_markedSource {source : Text} (hcr : '\r' ∉ source)
    (hangle : NoAngleBefore source (spans source)) :
    Woven (.plain false) (markedSource source) := by
  have h := woven_onLines none [] (Text.lineSegments source) (Text.lines_lineSegments source)
  rw [Text.flatten_lineSegments] at h
  exact h hcr hangle

end Canonmark.SpacedDestination
