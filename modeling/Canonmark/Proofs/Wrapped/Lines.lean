import Canonmark.Proofs.Source.SameLine
import Canonmark.Proofs.Wrapped.Sides

/-!
# Lines on two sides

Line endings, blank lines and indentation are found alike with and without the marks, and so are
the markers of containers.
-/

namespace Canonmark.SpacedDestination

open Source

theorem quiet_isBlank : Quiet Ascii.isBlank := ⟨rfl, rfl, rfl⟩

theorem Ready.eol? {marked : Marked} (h : Ready marked) : Agrees Source.eol? marked := by
  rcases h.cases with rfl | ⟨c, rest, rfl, hcr, -⟩
  · refine ⟨fun wrapped => by simp, fun n hn => ?_⟩
    cases hn
    exact Clear.zero h
  · by_cases hc : c = '\n'
    · subst hc
      refine ⟨fun wrapped => by simp [Source.eol?], fun n hn => ?_⟩
      cases hn
      exact (Clear.zero (h.tail (by decide) (by decide))).cons
    · refine ⟨fun wrapped => by simp [eol?_cons hc hcr], fun n hn => ?_⟩
      rw [Marked.side_cons_false, eol?_cons hc hcr] at hn
      cases hn

theorem Ready.blankLine? {marked : Marked} (h : Ready marked) :
    Agrees Source.blankLine? marked := by
  obtain ⟨blanks, rest, rfl, hready, hclear, hside⟩ := h.run quiet_isBlank
  constructor
  case side =>
    intro wrapped
    simp only [Source.blankLine?, countWhile, hside, hready.eol?.side wrapped]
  case clear =>
    intro n hn
    simp only [Source.blankLine?, countWhile, hside] at hn
    obtain ⟨k, hk, rfl⟩ := Option.map_eq_some_iff.mp hn
    rw [Nat.add_comm]
    exact hclear.add (by rw [Clear.drop_append]; exact hready.eol?.clear k hk)

theorem Ready.isBlankLine {marked : Marked} (h : Ready marked) (wrapped : Bool) :
    Source.isBlankLine (marked.side wrapped) = Source.isBlankLine (marked.side false) := by
  rw [Source.isBlankLine, Source.isBlankLine, h.blankLine?.side]

def behindLine : Marked → Marked
  | [] => []
  | (c, _) :: rest => if c = '\n' then rest else behindLine rest

def line : Marked → Marked
  | [] => []
  | (c, inserted) :: rest => if c = '\n' then [(c, inserted)] else (c, inserted) :: line rest

theorem line_append (marked : Marked) : line marked ++ behindLine marked = marked := by
  induction marked with
  | nil => rfl
  | cons mark rest ih =>
      rw [line, behindLine]
      split <;> simp [ih]

theorem Woven.angle {phase : Phase} {c : Char} {rest : Marked}
    (h : Woven phase ((c, true) :: rest)) : c = '<' ∨ c = '>' := by
  rcases h.cons_true with ⟨-, hc, -⟩ | ⟨-, hc, -⟩
  · exact .inl hc
  · exact .inr hc

theorem Woven.ne_newline {phase : Phase} {c : Char} {rest : Marked}
    (h : Woven phase ((c, true) :: rest)) : c ≠ '\n' := by
  rcases h.angle with rfl | rfl <;> decide

theorem Woven.tail {phase : Phase} {mark : Char × Bool} {rest : Marked}
    (h : Woven phase (mark :: rest)) : ∃ phase', Woven phase' rest := by
  obtain ⟨c, inserted⟩ := mark
  cases inserted with
  | true => rcases h.cons_true with ⟨-, -, -, h⟩ | ⟨-, -, -, h⟩ <;> exact ⟨_, h⟩
  | false => exact ⟨_, ((Woven.cons_false_iff _ _ _).mp h).2⟩

theorem Woven.lineLength {phase : Phase} {marked : Marked} (h : Woven phase marked)
    (wrapped : Bool) :
    lineLength (marked.side wrapped) = (Marked.side wrapped (line marked)).length := by
  induction marked generalizing phase with
  | nil => simp [Source.lineLength, line]
  | cons mark rest ih =>
      obtain ⟨phase', hrest⟩ := h.tail
      obtain ⟨c, inserted⟩ := mark
      have ih := ih hrest
      by_cases hc : c = '\n'
      · cases inserted with
        | true => exact absurd hc h.ne_newline
        | false => simp [Source.lineLength, line, hc]
      · cases inserted with
        | true => cases wrapped <;> simp [Source.lineLength, line, hc, ih]
        | false => simp [Source.lineLength, line, hc, ih]

theorem Woven.drop_lineLength {phase : Phase} {marked : Marked} (h : Woven phase marked)
    (wrapped : Bool) :
    (marked.side wrapped).drop (Source.lineLength (marked.side wrapped)) =
      Marked.side wrapped (behindLine marked) := by
  have hsplit : marked.side wrapped =
      Marked.side wrapped (line marked) ++ Marked.side wrapped (behindLine marked) := by
    rw [← Marked.side_append, line_append]
  rw [h.lineLength, hsplit, List.drop_left]

theorem Woven.take_lineLength {phase : Phase} {marked : Marked} (h : Woven phase marked)
    (wrapped : Bool) :
    (marked.side wrapped).take (Source.lineLength (marked.side wrapped)) =
      Marked.side wrapped (line marked) := by
  have hsplit : marked.side wrapped =
      Marked.side wrapped (line marked) ++ Marked.side wrapped (behindLine marked) := by
    rw [← Marked.side_append, line_append]
  rw [h.lineLength, hsplit, List.take_left]

theorem Ready.length_behindLine {c : Char} {rest : Marked} (wrapped : Bool) :
    (Marked.side wrapped (behindLine ((c, false) :: rest))).length <
      (Marked.side wrapped ((c, false) :: rest)).length := by
  have hsplit := congrArg List.length
    (congrArg (Marked.side wrapped) (line_append ((c, false) :: rest)))
  rw [Marked.side_append, List.length_append] at hsplit
  have hline : 0 < (Marked.side wrapped (line ((c, false) :: rest))).length := by
    rw [line]
    split <;> simp
  omega

theorem Woven.ready_behindLine {phase : Phase} {marked : Marked} (h : Woven phase marked) :
    Ready (behindLine marked) := by
  induction marked generalizing phase with
  | nil => exact Ready.nil
  | cons mark rest ih =>
      obtain ⟨c, inserted⟩ := mark
      rw [behindLine]
      split
      · next hc =>
          subst hc
          cases inserted with
          | true => exact absurd rfl h.ne_newline
          | false => exact ((Woven.cons_false_iff _ _ _).mp h).2
      · obtain ⟨phase', hrest⟩ := h.tail
        exact ih hrest

theorem Passes.line {phase : Phase} {marked : Marked} (h : Woven phase marked) :
    Passes marked (line marked) (behindLine marked) :=
  ⟨(line_append marked).symm, h.ready_behindLine⟩

theorem Woven.mem_line_side {phase : Phase} {marked : Marked} (h : Woven phase marked)
    {c : Char} (hopen : c ≠ '<') (hclose : c ≠ '>') (wrapped : Bool) :
    c ∈ Marked.side wrapped (line marked) ↔ c ∈ Marked.side false (line marked) := by
  induction marked generalizing phase with
  | nil => simp [line]
  | cons mark rest ih =>
      obtain ⟨phase', hrest⟩ := h.tail
      obtain ⟨d, inserted⟩ := mark
      cases inserted with
      | false =>
          by_cases hd : d = '\n'
          · simp [line, hd]
          · simp [line, hd, ih hrest]
      | true =>
          have hd : c ≠ d := by rcases h.angle with rfl | rfl <;> assumption
          cases wrapped with
          | false => simp
          | true => simpa [line, h.ne_newline, hd] using ih hrest

def isInner (c : Char) : Bool := decide (c ≠ '\n') && decide (c ≠ '\r')

theorem Woven.carriageReturn {phase : Phase} {marked : Marked} (h : Woven phase marked)
    (wrapped : Bool) : '\r' ∉ marked.side wrapped := by
  induction marked generalizing phase with
  | nil => simp
  | cons mark rest ih =>
      obtain ⟨phase', hrest⟩ := h.tail
      obtain ⟨c, inserted⟩ := mark
      cases inserted with
      | false =>
          have hc : c ≠ '\r' := by
            have haccepts := ((Woven.cons_false_iff _ _ _).mp h).1
            cases phase with
            | inside onward => exact haccepts.2.1
            | tail angle => exact haccepts.2
            | _ => exact haccepts
          simpa [Ne.symm hc] using ih hrest
      | true =>
          have hc : c ≠ '\r' := by rcases h.angle with rfl | rfl <;> decide
          cases wrapped with
          | false => simpa using ih hrest
          | true => simpa [Ne.symm hc] using ih hrest

theorem countWhile_inner {text : Text} (hcr : '\r' ∉ text) :
    countWhile isInner text + (Source.eol? (text.drop (countWhile isInner text))).getD 0 =
      lineLength text := by
  induction text with
  | nil => rfl
  | cons c rest ih =>
      obtain ⟨hc, hrest⟩ := not_or.mp (mt List.mem_cons.mpr hcr)
      by_cases hn : c = '\n'
      · subst hn
        simp [countWhile, isInner, Source.eol?, lineLength]
      · have hinner : isInner c = true := by simp [isInner, hn, Ne.symm hc]
        have ih := ih hrest
        simp only [countWhile] at ih
        simp [countWhile, hinner, lineLength, hn, ← ih]
        omega

theorem ending_inner {text : Text} (hcr : '\r' ∉ text) :
    (Source.eol? (text.drop (countWhile isInner text))).getD 0 = if '\n' ∈ text then 1 else 0 := by
  induction text with
  | nil => rfl
  | cons c rest ih =>
      obtain ⟨hc, hrest⟩ := not_or.mp (mt List.mem_cons.mpr hcr)
      by_cases hn : c = '\n'
      · subst hn
        simp [countWhile, isInner, Source.eol?]
      · have hinner : isInner c = true := by simp [isInner, hn, Ne.symm hc]
        have ih := ih hrest
        simp only [countWhile] at ih
        simp [countWhile, hinner, ih, Ne.symm hn]

theorem Woven.newline_mem {phase : Phase} {marked : Marked} (h : Woven phase marked)
    (wrapped : Bool) : '\n' ∈ marked.side wrapped ↔ '\n' ∈ marked.side false := by
  induction marked generalizing phase with
  | nil => simp
  | cons mark rest ih =>
      obtain ⟨phase', hrest⟩ := h.tail
      obtain ⟨c, inserted⟩ := mark
      cases inserted with
      | false => simp [ih hrest]
      | true =>
          cases wrapped with
          | false => simp
          | true => simpa [Ne.symm h.ne_newline] using ih hrest

/-- A line without marks, or one with a closing bracket on both sides. -/
theorem Woven.line_cases {phase : Phase} (hphase : phase = .closed ∨ ∃ e, phase = .plain e)
    {marked : Marked} (h : Woven phase marked) :
    (∃ (text : Text) (rest : Marked), marked = Marked.plain text ++ rest ∧
      (∀ c ∈ text, isInner c = true) ∧ (rest = [] ∨ ∃ more, rest = ('\n', false) :: more) ∧
        Ready rest) ∨
      ∀ wrapped, ']' ∈ (marked.side wrapped).takeWhile isInner := by
  induction marked generalizing phase with
  | nil => exact .inl ⟨[], [], rfl, by simp, .inl rfl, Ready.nil⟩
  | cons mark rest ih =>
      have hnot : phase ≠ .gap ∧ phase ≠ .inside false := by
        rcases hphase with rfl | ⟨e, rfl⟩ <;> simp
      rcases h.cases hnot.1 hnot.2 with hnil | ⟨c, rest', hcons, haccepts, hrest⟩
      · cases hnil
      cases hcons
      have hcr : c ≠ '\r' := by rcases hphase with rfl | ⟨e, rfl⟩ <;> exact haccepts
      by_cases hn : c = '\n'
      · subst hn
        exact .inl ⟨[], _, rfl, by simp, .inr ⟨rest, rfl⟩,
          (Woven.cons_false_iff _ _ _).mpr ⟨hcr, hrest⟩⟩
      have hinner : isInner c = true := by simp [isInner, hn, hcr]
      by_cases hbracket : c = ']'
      · right
        intro wrapped
        simp [hbracket, isInner]
      · have hnext : phase.next c = .closed ∨ ∃ e, phase.next c = .plain e := by
          rcases hphase with rfl | ⟨e, rfl⟩
          · simp [Phase.next, hn]
          · cases e <;> simp only [Phase.next, Phase.behind, hn, if_false, hbracket] <;>
              split_ifs <;> simp
        rcases ih hnext hrest with ⟨text, behind, rfl, htext, hends, hready⟩ | hmem
        · exact .inl ⟨c :: text, behind, rfl, by simpa [hinner] using htext, hends, hready⟩
        · right
          intro wrapped
          simp [hinner, hmem wrapped]

/-- Behind an angle bracket a line has no marks. -/
theorem Woven.sameLine {marked : Marked} (h : Woven .closed marked) (wrapped : Bool) :
    SameLine (marked.side wrapped) (marked.side false) := by
  induction marked with
  | nil => simpa using SameLine.nil
  | cons mark rest ih =>
      rcases h.cases (by simp) (by simp) with hnil | ⟨c, rest', hcons, hcr, hrest⟩
      · cases hnil
      cases hcons
      rw [Marked.side_cons_false, Marked.side_cons_false]
      by_cases hn : c = '\n'
      · subst hn
        exact SameLine.newline _ _
      · exact SameLine.cons hn hcr (ih (by simpa [Phase.next, hn] using hrest))

/-! ## Blank lines from any phase on -/

theorem isWhitespace_of_isBlank {c : Char} (h : Ascii.isBlank c = true) :
    Unicode.isWhitespace c = true := by
  simp only [Ascii.isBlank, Bool.or_eq_true, decide_eq_true_eq] at h
  rcases h with ((rfl | rfl) | rfl) | rfl <;> rfl

theorem Woven.tail_not_blank {angle : Bool} {marked : Marked} (h : Woven (.tail angle) marked) :
    Source.isBlankLine (marked.side false) = false := by
  induction marked generalizing angle with
  | nil => exact absurd ((Woven.nil_iff _).mp h) (by simp [Phase.Outside])
  | cons mark rest ih =>
      rcases h.cases (by simp) (by simp) with hnil | ⟨c, rest', hcons, haccepts, hrest⟩
      · cases hnil
      cases hcons
      rw [Marked.side_cons_false, isBlankLine_cons haccepts.2]
      by_cases hblank : Ascii.isBlank c = true
      · have hparen : c ≠ ')' := by rintro rfl; cases hblank
        have hnext : Phase.next c (.tail angle) = .tail (angle || c = '<') := by
          simp [Phase.next, haccepts.1, hparen]
        rw [hnext] at hrest
        simp [haccepts.1, ih hrest]
      · simp [haccepts.1, hblank]

theorem Woven.isBlankLine {phase : Phase} {marked : Marked} (h : Woven phase marked)
    (wrapped : Bool) :
    Source.isBlankLine (marked.side wrapped) = Source.isBlankLine (marked.side false) := by
  induction marked generalizing phase with
  | nil => simp
  | cons mark rest ih =>
      obtain ⟨c, inserted⟩ := mark
      have hcr := h.carriageReturn
      cases inserted with
      | false =>
          obtain ⟨phase', hrest⟩ := h.tail
          have hc : c ≠ '\r' := by
            have := hcr false
            rw [Marked.side_cons_false] at this
            exact Ne.symm (not_or.mp (mt List.mem_cons.mpr this)).1
          rw [Marked.side_cons_false, Marked.side_cons_false, isBlankLine_cons hc,
            isBlankLine_cons hc, ih hrest]
      | true =>
          cases wrapped with
          | false => rfl
          | true =>
              have hangle : Source.isBlankLine (c :: Marked.side true rest) = false := by
                rcases h.angle with rfl | rfl <;> exact isBlankLine_cons (by decide)
              rw [Marked.side_cons_wrapped, Marked.side_cons_kept, hangle]
              rcases h.cons_true with ⟨-, -, ⟨d, more, rfl, hd⟩, -⟩ | ⟨-, -, -, htail⟩
              · have hdcr : d ≠ '\r' := by rintro rfl; cases hd
                have hn : d ≠ '\n' := by rintro rfl; cases hd
                have hblank : Ascii.isBlank d = false := by
                  by_contra hblank
                  simp [isWhitespace_of_isBlank (by simpa using hblank)] at hd
                rw [Marked.side_cons_false, isBlankLine_cons hdcr]
                simp [hn, hblank]
              · exact htail.tail_not_blank.symm

structure Head where
  rest : Marked
  taken : Nat
  stop : Nat
  pending : Nat

namespace Head

def side (wrapped : Bool) (head : Head) : LineHead :=
  ⟨head.rest.side wrapped, head.taken, head.stop, head.pending⟩

/-- The first head is moved to the second over characters without marks. -/
structure Leads (first second : Head) : Prop where
  clear : ∃ n, Clear n first.rest ∧ second.rest = first.rest.drop n ∧
    second.taken = first.taken + n

theorem Leads.ready {first second : Head} (h : Leads first second) : Ready second.rest := by
  obtain ⟨n, hclear, hrest, -⟩ := h
  exact hrest ▸ hclear.ready

theorem Leads.passes {first second : Head} (h : Leads first second) :
    ∃ passed, Passes first.rest passed second.rest ∧
      ∀ wrapped, first.taken + (Marked.side wrapped passed).length = second.taken := by
  obtain ⟨n, hclear, hrest, htaken⟩ := h
  exact ⟨first.rest.take n, hrest ▸ hclear.passes, fun wrapped => by
    rw [hclear.length_take, htaken]⟩

theorem Leads.refl {head : Head} (h : Ready head.rest) : Leads head head :=
  ⟨0, Clear.zero h, rfl, rfl⟩

theorem Leads.trans {first second third : Head} (h : Leads first second)
    (h' : Leads second third) : Leads first third := by
  obtain ⟨n, hclear, hrest, htaken⟩ := h
  obtain ⟨k, hclear', hrest', htaken'⟩ := h'
  rw [hrest] at hclear' hrest'
  exact ⟨n + k, hclear.add hclear', by rw [hrest', List.drop_drop], by omega⟩

structure Advances (first second : Head) : Prop extends Leads first second where
  further : first.taken < second.taken

theorem Leads.taken_le {first second : Head} (h : Leads first second) :
    first.taken ≤ second.taken := by
  obtain ⟨n, -, -, htaken⟩ := h
  omega

theorem Advances.trans_leads {first second third : Head} (h : Advances first second)
    (h' : Leads second third) : Advances first third :=
  ⟨h.toLeads.trans h', h.further.trans_le h'.taken_le⟩

theorem Leads.step {c : Char} {rest : Marked} (h : Ready rest)
    (taken stop stop' pending pending' : Nat) :
    Leads ⟨(c, false) :: rest, taken, stop, pending⟩ ⟨rest, taken + 1, stop', pending'⟩ :=
  ⟨1, (Clear.zero h).cons, rfl, rfl⟩

end Head

theorem Ready.atEol {head : Head} (h : Ready head.rest) (wrapped : Bool) :
    (head.side wrapped).atEol = (head.side false).atEol := by
  rcases h.cases with hnil | ⟨c, rest, hcons, -⟩ <;> simp [LineHead.atEol, Head.side, *]

theorem Ready.takeColumns {marked : Marked} (h : Ready marked) (taken stop columns : Nat) :
    ∃ missing head, Head.Leads ⟨marked, taken, stop, 0⟩ head ∧
      ∀ wrapped, LineHead.takeColumns taken stop columns (marked.side wrapped) =
        (missing, Head.side wrapped head) := by
  induction marked generalizing taken stop columns with
  | nil => exact ⟨columns, ⟨[], taken, stop, 0⟩, Head.Leads.refl h,
      fun wrapped => by simp [LineHead.takeColumns, Head.side]⟩
  | cons mark rest ih =>
      rcases h.cases with hnil | ⟨c, rest', hcons, -⟩
      · cases hnil
      cases hcons
      by_cases hcolumns : columns = 0
      · exact ⟨0, ⟨_, taken, stop, 0⟩, Head.Leads.refl h,
          fun wrapped => by simp [LineHead.takeColumns, Head.side, hcolumns]⟩
      by_cases hspace : c = ' '
      · have hready := h.tail (c := c) (by simp [hspace]) (by simp [hspace])
        obtain ⟨missing, head, hleads, hside⟩ := ih hready (taken + 1) stop (columns - 1)
        exact ⟨missing, head, (Head.Leads.step hready _ _ _ _ _).trans hleads,
          fun wrapped => by simp [LineHead.takeColumns, hcolumns, hspace, hside]⟩
      by_cases htab : c = '\t'
      · have hready := h.tail (c := c) (by simp [htab]) (by simp [htab])
        by_cases hwidth : columns < 4 - (taken - stop) % 4
        · exact ⟨0, ⟨rest, taken + 1, taken + 1, 4 - (taken - stop) % 4 - columns⟩,
            Head.Leads.step hready _ _ _ _ _,
            fun wrapped => by simp [LineHead.takeColumns, Head.side, hcolumns, htab, hwidth]⟩
        · obtain ⟨missing, head, hleads, hside⟩ :=
            ih hready (taken + 1) (taken + 1) (columns - (4 - (taken - stop) % 4))
          exact ⟨missing, head, (Head.Leads.step hready _ _ _ _ _).trans hleads,
            fun wrapped => by simp [LineHead.takeColumns, hcolumns, htab, hwidth, hside]⟩
      · exact ⟨columns, ⟨_, taken, stop, 0⟩, Head.Leads.refl h,
          fun wrapped => by simp [LineHead.takeColumns, Head.side, hcolumns, hspace, htab]⟩

/-! ## Indentation and containers -/

namespace Head

variable {head : Head}

theorem takeMissing (h : Ready head.rest) (columns : Nat) :
    ∃ missing next, Leads head next ∧
      ∀ wrapped, (head.side wrapped).takeMissing columns = (missing, next.side wrapped) := by
  by_cases hpending : columns ≤ head.pending
  · exact ⟨0, { head with pending := head.pending - columns }, ⟨0, Clear.zero h, rfl, rfl⟩,
      fun wrapped => by simp [LineHead.takeMissing, side, hpending]⟩
  · obtain ⟨missing, next, hleads, hside⟩ :=
      h.takeColumns head.taken head.stop (columns - head.pending)
    exact ⟨missing, next, ⟨hleads.clear⟩,
      fun wrapped => by simpa [LineHead.takeMissing, side, hpending] using hside wrapped⟩

theorem takeExactly (h : Ready head.rest) (columns : Nat) :
    ∃ found next, Leads head next ∧
      ∀ wrapped, (head.side wrapped).takeExactly columns = (found, next.side wrapped) := by
  obtain ⟨missing, next, hleads, hside⟩ := takeMissing h columns
  exact ⟨decide (missing = 0), next, hleads, fun wrapped => by
    rw [LineHead.takeExactly, hside wrapped]⟩

theorem takeUpTo (h : Ready head.rest) (columns : Nat) :
    ∃ found next, Leads head next ∧
      ∀ wrapped, (head.side wrapped).takeUpTo columns = (found, next.side wrapped) := by
  obtain ⟨missing, next, hleads, hside⟩ := takeMissing h columns
  exact ⟨columns - missing, next, hleads, fun wrapped => by
    rw [LineHead.takeUpTo, hside wrapped]⟩

theorem advance {n : Nat} (h : Clear n head.rest) :
    ∃ next, (Leads head next ∧ next.taken = head.taken + n) ∧
      ∀ wrapped, (head.side wrapped).advance n = next.side wrapped := by
  refine ⟨{ head with rest := head.rest.drop n, taken := head.taken + n },
    ⟨⟨n, h, rfl, rfl⟩, rfl⟩, fun wrapped => ?_⟩
  simp [LineHead.advance, side, h.drop_side]

theorem takeAll (h : Ready head.rest) :
    ∃ next, Leads head next ∧ ∀ wrapped, (head.side wrapped).takeAll = next.side wrapped := by
  have hquiet : Quiet fun c => decide (c = ' ') || decide (c = '\t') := ⟨rfl, rfl, rfl⟩
  obtain ⟨text, rest, hsplit, -, hclear, hside⟩ := h.run hquiet
  refine ⟨⟨rest, head.taken + text.length, head.stop, 0⟩,
    ⟨text.length, hclear, by rw [hsplit, Clear.drop_append], rfl⟩, fun wrapped => ?_⟩
  simp only [LineHead.takeAll, side, countWhile, hside]

theorem quoteMarker? (h : Ready head.rest) :
    ∃ found : Option Head, (∀ next ∈ found, Advances head next) ∧
      ∀ wrapped, (head.side wrapped).quoteMarker? = found.map (side wrapped) := by
  rcases h.cases with hnil | ⟨c, rest, hcons, -⟩
  · exact ⟨none, by simp, fun wrapped => by simp [LineHead.quoteMarker?, side, hnil]⟩
  by_cases hc : c = '>'
  · subst hc
    have hclear : Clear 1 head.rest := by
      rw [hcons] at h ⊢
      exact (Clear.zero (h.tail (by decide) (by decide))).cons
    obtain ⟨next, hadvances, hside⟩ := advance hclear
    obtain ⟨found, last, hleads, hside'⟩ := takeExactly hadvances.1.ready 1
    have hnext : Advances head next := ⟨hadvances.1, by rw [hadvances.2]; omega⟩
    refine ⟨some last, by simpa using hnext.trans_leads hleads, fun wrapped => ?_⟩
    have hrest : (head.side wrapped).rest = '>' :: Marked.side wrapped rest := by
      simp [side, hcons]
    simp [LineHead.quoteMarker?, hrest, hside, hside']
  · refine ⟨none, by simp, fun wrapped => ?_⟩
    have hrest : (head.side wrapped).rest = c :: Marked.side wrapped rest := by
      simp [side, hcons]
    simp [LineHead.quoteMarker?, hrest, hc]

theorem indented (h : Ready head.rest) (columns : Nat) :
    ∃ found : Option Head, (∀ next ∈ found, Leads head next) ∧
      ∀ wrapped,
        (if ((head.side wrapped).takeExactly columns).1 ||
            ((head.side wrapped).takeExactly columns).2.atEol then
          some ((head.side wrapped).takeExactly columns).2 else none) =
          found.map (side wrapped) := by
  obtain ⟨found, next, hleads, hside⟩ := takeExactly h columns
  have heol := hleads.ready.atEol
  by_cases hgoes : found || (next.side false).atEol
  · exact ⟨some next, by simpa using hleads, fun wrapped => by simp [hside, heol wrapped, hgoes]⟩
  · exact ⟨none, by simp, fun wrapped => by simp [hside, heol wrapped, hgoes]⟩

theorem continue? (h : Ready head.rest) (container : Container) :
    ∃ found : Option Head, (∀ next ∈ found, Leads head next) ∧
      ∀ wrapped, (head.side wrapped).continue? container = found.map (side wrapped) := by
  cases container with
  | quote =>
      obtain ⟨found, next, hleads, hside⟩ := takeExactly h 3
      obtain ⟨result, hresult, hside'⟩ := quoteMarker? hleads.ready
      exact ⟨result, fun last hlast => hleads.trans (hresult last hlast).toLeads,
        fun wrapped => by rw [LineHead.continue?, hside, hside']⟩
  | list tight marker number =>
      exact ⟨some head, by simpa using Leads.refl h, fun wrapped => rfl⟩
  | item indent => exact indented h indent
  | footnote label => exact indented h 4

theorem continuation (h : Ready head.rest) (containers : List Container) :
    ∃ n next, Leads head next ∧
      ∀ wrapped, LineHead.continuation containers (head.side wrapped) = (n, next.side wrapped) := by
  induction containers generalizing head with
  | nil => exact ⟨0, head, Leads.refl h, fun wrapped => rfl⟩
  | cons container containers ih =>
      obtain ⟨found, hfound, hside⟩ := continue? h container
      cases found with
      | none => exact ⟨0, head, Leads.refl h, fun wrapped => by
          simp [LineHead.continuation, hside]⟩
      | some next =>
          have hleads := hfound next rfl
          obtain ⟨n, last, hleads', hside'⟩ := ih hleads.ready
          exact ⟨n + 1, last, hleads.trans hleads', fun wrapped => by
            simp [LineHead.continuation, hside, hside']⟩

end Head

def Head.start (line : Marked) : Head := ⟨line, 0, 0, 0⟩

theorem Ready.within {marked : Marked} (h : Ready marked) (containers : List Container) :
    ∃ inside next, (Head.start marked).Leads next ∧
      ∀ wrapped, LineHead.within containers (marked.side wrapped) =
        (inside, Head.side wrapped next) := by
  obtain ⟨n, next, hleads, hside⟩ := @Head.continuation (Head.start marked) h containers
  exact ⟨decide (n = containers.length), next, hleads, fun wrapped => by
    rw [LineHead.within]
    exact congrArg (fun found : Nat × LineHead => (decide (found.1 = containers.length), found.2))
      (hside wrapped)⟩

theorem length_behindLine_lt {marked : Marked} (h : marked ≠ []) :
    (behindLine marked).length < marked.length := by
  induction marked with
  | nil => exact absurd rfl h
  | cons mark rest ih =>
      rw [behindLine]
      split
      · simp
      · cases rest with
        | nil => simp [behindLine]
        | cons next rest => exact (ih (by simp)).trans (by simp)

/-- A head on the next line has been led over the first one. -/
theorem Head.Leads.shorter {marked : Marked} {head : Head} (hnil : marked ≠ [])
    (h : (Head.start (behindLine marked)).Leads head) : head.rest.length < marked.length := by
  obtain ⟨k, -, hdrop, -⟩ := h.clear
  have hline := length_behindLine_lt hnil
  have hlength := congrArg List.length hdrop
  simp only [Head.start, List.length_drop] at hlength
  omega

end Canonmark.SpacedDestination
