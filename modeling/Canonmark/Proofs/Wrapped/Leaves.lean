import Canonmark.Proofs.Source.TokenLine
import Canonmark.Proofs.Wrapped.Definitions
import Canonmark.Proofs.Wrapped.Literals

/-!
# Inline content on two sides

Headings, tables and paragraphs reach equally far with and without the marks. Their tokens may
differ, but none of them holds literal text.
-/

namespace Canonmark.SpacedDestination

open Source LeafReader

variable {extensions : Extensions} {containers : List Container}

/-- A wrapped destination is followed by a parenthesis on its line. -/
theorem Woven.parenthesis_mem {phase : Phase} {marked : Marked} (h : Woven phase marked)
    (hphase : ¬phase.Outside) (wrapped : Bool) : ')' ∈ (marked.side wrapped).takeWhile isInner := by
  induction marked generalizing phase with
  | nil => exact absurd ((Woven.nil_iff _).mp h) hphase
  | cons mark rest ih =>
      obtain ⟨c, inserted⟩ := mark
      cases inserted with
      | true =>
          rcases h.cons_true with ⟨rfl, -⟩ | ⟨-, hc, -, hrest⟩
          · exact absurd trivial hphase
          · have hrest := ih hrest id
            cases wrapped with
            | true => simpa [hc, isInner] using hrest
            | false => simpa using hrest
      | false =>
          obtain ⟨haccepts, hrest⟩ := (Woven.cons_false_iff _ _ _).mp h
          rw [Marked.side_cons_false]
          cases phase with
          | inside onward =>
              have hinner : isInner c = true := by simp [isInner, haccepts.1, haccepts.2.1]
              have hnext : ¬(Phase.next c (.inside onward)).Outside := by
                simp [Phase.next, haccepts.1, Phase.Outside]
              simp [hinner, ih hrest hnext]
          | tail angle =>
              have hinner : isInner c = true := by simp [isInner, haccepts.1, haccepts.2]
              by_cases hc : c = ')'
              · subst hc
                simp [hinner]
              · have hnext : ¬(Phase.next c (.tail angle)).Outside := by
                  simp [Phase.next, haccepts.1, hc, Phase.Outside]
                simp [hinner, ih hrest hnext]
          | _ => exact absurd trivial hphase

def onlyBackslashes (text : Text) : Bool := (text.takeWhile isInner).all (· = '\\')

theorem Woven.onlyBackslashes {phase : Phase} {marked : Marked} (h : Woven phase marked)
    (wrapped : Bool) : SpacedDestination.onlyBackslashes (marked.side wrapped) =
      SpacedDestination.onlyBackslashes (marked.side false) := by
  have hparen {text : Text} (hmem : ')' ∈ text.takeWhile isInner) :
      SpacedDestination.onlyBackslashes text = false :=
    List.all_eq_false.mpr ⟨')', hmem, by decide⟩
  induction marked generalizing phase with
  | nil => simp
  | cons mark rest ih =>
      obtain ⟨c, inserted⟩ := mark
      cases inserted with
      | true =>
          cases wrapped with
          | false => rfl
          | true =>
              have hrest : ∃ next, ¬Phase.Outside next ∧ Woven next rest := by
                rcases h.cons_true with ⟨-, -, -, hrest⟩ | ⟨-, -, -, hrest⟩
                · exact ⟨_, id, hrest⟩
                · exact ⟨_, id, hrest⟩
              obtain ⟨next, hnext, hrest⟩ := hrest
              rw [Marked.side_cons_kept, hparen (Woven.parenthesis_mem hrest hnext false)]
              rcases h.angle with rfl | rfl <;> rfl
      | false =>
          obtain ⟨-, hrest⟩ := (Woven.cons_false_iff _ _ _).mp h
          have ih := ih hrest
          simp only [SpacedDestination.onlyBackslashes] at ih
          simp only [SpacedDestination.onlyBackslashes, Marked.side_cons_false,
            List.takeWhile_cons]
          split
          · simp only [List.all_cons, ih]
          · rfl

def backslashes (text : Text) : Nat :=
  countWhile (· = '\\') (text.takeWhile isInner).reverse

theorem backslashes_cons (c : Char) (rest : Text) :
    backslashes (c :: rest) =
      if isInner c then
        if c = '\\' && onlyBackslashes rest then backslashes rest + 1 else backslashes rest
      else 0 := by
  simp only [backslashes, onlyBackslashes, countWhile, List.takeWhile_cons]
  split
  · rw [List.reverse_cons]
    by_cases hall : ((rest.takeWhile isInner).all fun d => decide (d = '\\')) = true
    · have hall' : ∀ d ∈ (rest.takeWhile isInner).reverse, decide (d = '\\') = true := by
        simpa using hall
      rw [List.takeWhile_append_of_pos hall', List.takeWhile_eq_self_iff.mpr hall']
      by_cases hc : c = '\\' <;> simp [hc, hall]
    · have hlt : ((rest.takeWhile isInner).reverse.takeWhile fun d => decide (d = '\\')).length ≠
          (rest.takeWhile isInner).reverse.length := by
        intro heq
        refine hall ?_
        have hself := List.takeWhile_eq_self_iff.mp
          ((List.takeWhile_prefix _).eq_of_length heq)
        simpa using hself
      rw [List.takeWhile_append, if_neg hlt]
      simp [hall]
  · rfl

theorem Woven.backslashes {phase : Phase} {marked : Marked} (h : Woven phase marked)
    (wrapped : Bool) : SpacedDestination.backslashes (marked.side wrapped) =
      SpacedDestination.backslashes (marked.side false) := by
  induction marked generalizing phase with
  | nil => simp
  | cons mark rest ih =>
      obtain ⟨phase', hrest⟩ := h.tail
      obtain ⟨c, inserted⟩ := mark
      cases inserted with
      | false =>
          rw [Marked.side_cons_false, Marked.side_cons_false, backslashes_cons, backslashes_cons,
            hrest.onlyBackslashes wrapped, ih hrest]
      | true =>
          cases wrapped with
          | false => rfl
          | true =>
              rw [Marked.side_cons_wrapped, Marked.side_cons_kept, backslashes_cons, ih hrest]
              rcases h.angle with rfl | rfl <;> simp [isInner]

theorem Ready.endsEscaped {marked : Marked} (h : Ready marked) (wrapped : Bool) :
    LeafReader.endsEscaped (marked.side wrapped) = LeafReader.endsEscaped (marked.side false) := by
  have hends (wrapped : Bool) : LeafReader.endsEscaped (marked.side wrapped) =
      (decide (SpacedDestination.backslashes (marked.side wrapped) % 2 = 1) &&
        !(Marked.side wrapped (behindLine marked)).isEmpty) := by
    rw [← Woven.drop_lineLength h wrapped, ← countWhile_inner (Woven.carriageReturn h wrapped)]
    rfl
  rw [hends, hends, Woven.backslashes h wrapped, (Woven.ready_behindLine h).isEmpty_side wrapped]

/-! ## Cells and tables -/

theorem afterCell_cons {c : Char} {rest : Text} (hback : c ≠ '\\') :
    cells.afterCell (c :: rest) =
      if c = '|' || c = '\n' || c = '\r' then c :: rest else cells.afterCell rest := by
  rw [cells.afterCell]
  rintro more heq
  cases heq
  exact absurd rfl hback

theorem afterCell_backslash {c : Char} {rest : Text} (hc : c ≠ '|') :
    cells.afterCell ('\\' :: c :: rest) = cells.afterCell (c :: rest) := by
  rw [cells.afterCell]
  · rfl
  · rintro more - heq
    exact absurd (List.cons.inj heq).1 hc

theorem length_afterCell (text : Text) : (cells.afterCell text).length ≤ text.length := by
  fun_induction cells.afterCell text with
  | case1 => exact Nat.le_refl _
  | case2 rest ih => exact ih.trans (by simp only [List.length_cons]; omega)
  | case3 => exact Nat.le_refl _
  | case4 c rest _ _ ih => exact ih.trans (by simp)

theorem length_afterCell_lt {c : Char} {rest : Text}
    (hc : (c = '|' || c = '\n' || c = '\r') = false) :
    (cells.afterCell (c :: rest)).length < (c :: rest).length := by
  by_cases hback : c = '\\'
  · subst hback
    rcases rest with - | ⟨d, rest⟩
    · simp [cells.afterCell]
    · by_cases hd : d = '|'
      · subst hd
        exact (length_afterCell rest).trans_lt (by simp only [List.length_cons]; omega)
      · rw [afterCell_backslash hd]
        exact (length_afterCell _).trans_lt (by simp)
  · rw [afterCell_cons hback, hc]
    exact (length_afterCell rest).trans_lt (by simp)

theorem afterCell_blanks (text : Text) :
    cells.afterCell (text.dropWhile Ascii.isBlank) = cells.afterCell text := by
  induction text with
  | nil => rfl
  | cons c rest ih =>
      rw [List.dropWhile_cons]
      split
      · next hblank =>
          have hc : ¬(c = '|' || c = '\n' || c = '\r') = true := by
            rintro hc
            simp only [Bool.or_eq_true, decide_eq_true_eq] at hc
            rcases hc with (rfl | rfl) | rfl <;> cases hblank
          rw [ih, afterCell_cons (by rintro rfl; cases hblank), if_neg hc]
      · rfl

def behindBar (text : Text) : Text := if text.head? = some '|' then text.drop 1 else text

theorem cells_succ (fuel : Nat) (text : Text) :
    cells (fuel + 1) text = if isBlankLine (behindBar text) then 0
      else 1 + cells fuel (cells.afterCell (behindBar text)) := by
  have hblank : isBlankLine (behindBar text) =
      (Source.eol? ((behindBar text).dropWhile Ascii.isBlank)).isSome := by
    simp [isBlankLine, Source.blankLine?]
  rw [cells, hblank, ← afterCell_blanks (behindBar text)]
  rfl

def StartsPlain (marked : Marked) : Prop := ∀ c rest, marked ≠ (c, true) :: rest

theorem Woven.afterCell {phase : Phase} {marked : Marked} (h : Woven phase marked) :
    ∃ phase' last, Woven phase' last ∧ StartsPlain last ∧
      ∀ wrapped, cells.afterCell (marked.side wrapped) = Marked.side wrapped last := by
  induction hn : marked.length using Nat.strong_induction_on generalizing phase marked with
  | h n ih =>
  subst hn
  rcases marked with - | ⟨⟨c, inserted⟩, rest⟩
  · exact ⟨phase, [], h, by simp [StartsPlain], fun wrapped => by simp [cells.afterCell]⟩
  obtain ⟨phase', hrest⟩ := h.tail
  obtain ⟨next, last, hlast, hplain, hside⟩ := ih _ (by simp) hrest rfl
  cases inserted with
  | true =>
      refine ⟨next, last, hlast, hplain, fun wrapped => ?_⟩
      cases wrapped with
      | false => exact hside false
      | true =>
          rw [Marked.side_cons_wrapped, ← hside true]
          rcases h.angle with rfl | rfl <;> exact afterCell_cons (by decide)
  | false =>
      by_cases hback : c = '\\'
      · subst hback
        obtain ⟨-, hnext⟩ := (Woven.cons_false_iff _ _ _).mp h
        rcases hnext.cases (Phase.next_backslash_ne_gap phase)
          (fun hinside => nomatch Phase.next_backslash_inside hinside) with
          rfl | ⟨d, more, rfl, -, hmore⟩
        · exact ⟨_, [], Ready.nil, by simp [StartsPlain], fun wrapped => by
            simp [cells.afterCell]⟩
        by_cases hd : d = '|'
        · subst hd
          obtain ⟨next, last, hlast, hplain, hside⟩ := ih _ (by simp only [List.length_cons]; omega)
            hmore rfl
          exact ⟨next, last, hlast, hplain, fun wrapped => by
            simp [cells.afterCell, hside wrapped]⟩
        · refine ⟨next, last, hlast, hplain, fun wrapped => ?_⟩
          rw [← hside, Marked.side_cons_false, Marked.side_cons_false, afterCell_backslash hd]
      · by_cases hc : (c = '|' || c = '\n' || c = '\r') = true
        · refine ⟨phase, _, h, by simp [StartsPlain], fun wrapped => ?_⟩
          rw [Marked.side_cons_false, afterCell_cons hback, if_pos hc]
        · refine ⟨next, last, hlast, hplain, fun wrapped => ?_⟩
          rw [Marked.side_cons_false, afterCell_cons hback, if_neg hc, hside]

theorem Woven.cells {phase : Phase} {marked : Marked} (h : Woven phase marked)
    (hplain : StartsPlain marked) : ∃ n, ∀ wrapped fuel, (marked.side wrapped).length < fuel →
      LeafReader.cells fuel (marked.side wrapped) = n := by
  induction hn : (marked.side false).length using Nat.strong_induction_on
    generalizing phase marked with
  | h n ih =>
  subst hn
  rcases marked with - | ⟨⟨c, inserted⟩, rest⟩
  · refine ⟨0, fun wrapped fuel hfuel => ?_⟩
    obtain ⟨fuel, rfl⟩ := Nat.exists_eq_succ_of_ne_zero (Nat.ne_zero_of_lt hfuel)
    simp [LeafReader.cells, Source.eol?]
  cases inserted with
  | true => exact absurd rfl (hplain c rest)
  | false =>
  have hbar : ∃ phase' behind, Woven phase' behind ∧
      ∀ wrapped, behindBar (c :: Marked.side wrapped rest) = Marked.side wrapped behind := by
    by_cases hc : c = '|'
    · obtain ⟨phase', hrest⟩ := h.tail
      exact ⟨phase', rest, hrest, fun wrapped => by simp [behindBar, hc]⟩
    · exact ⟨phase, _, h, fun wrapped => by simp [behindBar, hc]⟩
  obtain ⟨phase', behind, hbehind, hbar⟩ := hbar
  obtain ⟨phase'', last, hlast, hlastPlain, hafter⟩ := hbehind.afterCell
  have hblank := hbehind.isBlankLine
  have hstep (wrapped : Bool) (fuel : Nat) :
      LeafReader.cells (fuel + 1) (c :: Marked.side wrapped rest) =
        if Source.isBlankLine (behind.side false) then 0
        else 1 + LeafReader.cells fuel (Marked.side wrapped last) := by
    rw [cells_succ, hbar, hblank, hafter]
  by_cases hempty : Source.isBlankLine (behind.side false) = true
  · refine ⟨0, fun wrapped fuel hfuel => ?_⟩
    obtain ⟨fuel, rfl⟩ := Nat.exists_eq_succ_of_ne_zero (Nat.ne_zero_of_lt hfuel)
    rw [Nat.succ_eq_add_one, Marked.side_cons_false, hstep, if_pos hempty]
  · have hshorter (wrapped : Bool) :
        (Marked.side wrapped last).length < (c :: Marked.side wrapped rest).length := by
      rw [← hafter wrapped]
      by_cases hc : c = '|'
      · have hdrop : Marked.side wrapped behind = Marked.side wrapped rest := by
          rw [← hbar wrapped, behindBar]
          simp [hc]
        rw [hdrop]
        exact (length_afterCell _).trans_lt (by simp)
      · have hkeep : Marked.side wrapped behind = c :: Marked.side wrapped rest := by
          rw [← hbar wrapped, behindBar]
          simp [hc]
        rw [hkeep]
        refine length_afterCell_lt ?_
        have hcr : c ≠ '\r' := fun heq =>
          Woven.carriageReturn h wrapped (by rw [heq, Marked.side_cons_false]; simp)
        have hn : c ≠ '\n' := by
          rintro rfl
          exact hempty (by rw [← hblank wrapped, hkeep]; rfl)
        simp [hc, hcr, hn]
    obtain ⟨n, hn⟩ := ih _ (hshorter false) hlast hlastPlain rfl
    refine ⟨1 + n, fun wrapped fuel hfuel => ?_⟩
    obtain ⟨fuel, rfl⟩ := Nat.exists_eq_succ_of_ne_zero (Nat.ne_zero_of_lt hfuel)
    have hless := hshorter wrapped
    rw [Marked.side_cons_false] at hfuel
    rw [Nat.succ_eq_add_one, Marked.side_cons_false, hstep, if_neg hempty,
      hn wrapped fuel (by omega)]

theorem Ready.startsPlain {marked : Marked} (h : Ready marked) : StartsPlain marked := by
  rintro c rest rfl
  rcases h.cases with hnil | ⟨d, more, hcons, -⟩
  · cases hnil
  · cases hcons

theorem Head.Leads.rest_nil {first second : Head} (h : first.Leads second)
    (hnil : first.rest = []) : second.rest = [] := by
  obtain ⟨n, -, hrest, -⟩ := h
  rw [hrest, hnil, List.drop_nil]

theorem Ready.tableRows {n columns missing : Nat} {marked : Marked} (h : Ready marked)
    (hn : marked.length ≤ n) :
    ∃ passed rest, Passes marked passed rest ∧ ∀ wrapped fuel position,
      (marked.side wrapped).length < fuel →
        LeafReader.tableRows extensions containers columns fuel missing position
            (marked.side wrapped) =
          (position + (Marked.side wrapped passed).length, rest.side wrapped) := by
  induction n generalizing marked missing with
  | zero =>
      obtain rfl := List.eq_nil_of_length_eq_zero (Nat.le_zero.mp hn)
      obtain ⟨inside, hwithin⟩ := within_nil containers
      refine ⟨[], [], Passes.refl h, fun wrapped fuel position hfuel => ?_⟩
      obtain ⟨fuel, rfl⟩ := Nat.exists_eq_succ_of_ne_zero (Nat.ne_zero_of_lt hfuel)
      simp [LeafReader.tableRows, hwithin, LineHead.takeAll, LeafReader.cells, Source.eol?]
  | succ n ih =>
  obtain ⟨inside, head, hhead, hwithin⟩ := h.within containers
  obtain ⟨row, hrow, htakeAll⟩ := Head.takeAll hhead.ready
  have hleads := hhead.trans hrow
  obtain ⟨count, hcount⟩ := Woven.cells hrow.ready hrow.ready.startsPlain
  have hstarts := @Ready.startsBlock extensions row.rest hrow.ready inside true
  have hrest (wrapped : Bool) : (row.side wrapped).rest = Marked.side wrapped row.rest := rfl
  have hstep (wrapped : Bool) (fuel position : Nat) :
      LeafReader.tableRows extensions containers columns (fuel + 1) missing position
          (marked.side wrapped) =
        if !inside || Source.startsBlock extensions inside true (Marked.side false row.rest) ||
            decide (count = 0) || decide (missing + (columns - count) > maxMissingCells) then
          (position, marked.side wrapped)
        else
          LeafReader.tableRows extensions containers columns fuel (missing + (columns - count))
            (position + row.taken + (Marked.side wrapped (line row.rest)).length)
            (Marked.side wrapped (behindLine row.rest)) := by
    have hline := countWhile_inner (Woven.carriageReturn hrow.ready wrapped)
    rw [Woven.lineLength hrow.ready] at hline
    have hdrop := Woven.drop_lineLength hrow.ready wrapped
    rw [Woven.lineLength hrow.ready, ← hline] at hdrop
    rw [← hline, ← hdrop]
    simp only [LeafReader.tableRows, hwithin, htakeAll, hrest, hstarts wrapped,
      hcount wrapped _ (Nat.lt_succ_self _)]
    rfl
  by_cases hstop : (!inside || Source.startsBlock extensions inside true
      (Marked.side false row.rest) || decide (count = 0) ||
        decide (missing + (columns - count) > maxMissingCells)) = true
  · refine ⟨[], marked, Passes.refl h, fun wrapped fuel position hfuel => ?_⟩
    obtain ⟨fuel, rfl⟩ := Nat.exists_eq_succ_of_ne_zero (Nat.ne_zero_of_lt hfuel)
    rw [Nat.succ_eq_add_one, hstep, if_pos hstop]
    simp
  · have hnil : marked ≠ [] := by
      rintro rfl
      refine hstop ?_
      have hzero := hcount false 1
      simp only [hleads.rest_nil rfl] at hzero
      have hzero : count = 0 := (hzero (by simp)).symm.trans rfl
      simp [hzero]
    obtain ⟨first, hnext⟩ := Head.nextLine h hnil hleads
    obtain ⟨passed, rest, hpasses, hside⟩ := @ih (missing + (columns - count)) _ hnext.passes.ready
      (by have := hnext.shorter; omega)
    refine ⟨_, rest, hnext.passes.trans hpasses, fun wrapped fuel position hfuel => ?_⟩
    obtain ⟨fuel, rfl⟩ := Nat.exists_eq_succ_of_ne_zero (Nat.ne_zero_of_lt hfuel)
    rw [Nat.succ_eq_add_one, hstep, if_neg hstop,
      hside wrapped fuel _ (by have := hnext.sideShorter wrapped; omega)]
    simp [hnext.length wrapped, Nat.add_assoc]

/-- The reader of a leaf has passed what there was to pass. -/
structure Inline (read : LeafRead) (wrapped : Bool) (position : Nat) (passed rest : Marked) :
    Prop where
  position : read.position = position + (passed.side wrapped).length
  rest : read.rest = rest.side wrapped

theorem Ready.heading {level : Nat} {marked : Marked} (h : Clear level marked) (hpos : 0 < level) :
    ∃ passed rest, Passes marked passed rest ∧ rest.length < marked.length ∧ ∀ wrapped position,
      Inline (LeafReader.heading extensions position level (marked.side wrapped)) wrapped position
        passed rest := by
  have hending := h.ready.eol?
  have hshorter := h.passes.shorter (by rwa [h.length_take])
  cases heol : Source.eol? (Marked.side false (marked.drop level)) with
  | some n =>
      have hclear := hending.clear n heol
      refine ⟨_, _, h.passes.trans hclear.passes, hclear.passes.length_le.trans_lt hshorter,
        fun wrapped position => ?_⟩
      have heol : Source.eol? (Marked.side wrapped (marked.drop level)) = some n :=
        (hending.side wrapped).trans heol
      simp only [LeafReader.heading, h.drop_side, heol, hclear.drop_side]
      refine ⟨?_, rfl⟩
      rw [Marked.side_append, List.length_append, h.length_take, hclear.length_take, Nat.add_assoc]
  | none =>
      have hblanks := h.ready.clear_countWhile quiet_isBlank
      have hline := Passes.line hblanks.ready
      refine ⟨_, _, (h.passes.trans hblanks.passes).trans hline,
        (hblanks.passes.trans hline).length_le.trans_lt hshorter, fun wrapped position => ?_⟩
      have heol : Source.eol? (Marked.side wrapped (marked.drop level)) = none :=
        (hending.side wrapped).trans heol
      simp only [LeafReader.heading, h.drop_side, heol, h.ready.countWhile_side quiet_isBlank
        wrapped, hblanks.drop_side]
      have hread := TokenLine.read_line extensions []
        (position + level + countWhile Ascii.isBlank (Marked.side false (marked.drop level)))
        (Woven.carriageReturn hblanks.ready wrapped)
      refine ⟨hread.1.trans ?_,
        hread.2.trans (Woven.drop_lineLength hblanks.ready wrapped)⟩
      rw [Marked.side_append, Marked.side_append, List.length_append, List.length_append,
        h.length_take, hblanks.length_take, Woven.lineLength hblanks.ready]
      omega

/-! ## Paragraphs -/

theorem Ready.paragraphFrom {marked : Marked} (h : Ready marked) :
    ∃ passed rest, Passes marked passed rest ∧ (marked ≠ [] → rest.length < marked.length) ∧
      ∀ wrapped start fuel tokens position,
      (marked.side wrapped).length < fuel →
        Inline (LeafReader.paragraphFrom extensions containers start fuel tokens position
          (marked.side wrapped)) wrapped position passed rest := by
  induction hn : marked.length using Nat.strong_induction_on generalizing marked with
  | h n ih =>
  subst hn
  have hfirst := Passes.line h
  have hread (wrapped : Bool) (tokens : List Token) (position : Nat) :=
    TokenLine.read_line extensions tokens position (Woven.carriageReturn h wrapped)
  have hlineRest (wrapped : Bool) (tokens : List Token) (position : Nat) :=
    (hread wrapped tokens position).2.trans (Woven.drop_lineLength h wrapped)
  have hlinePosition (wrapped : Bool) (tokens : List Token) (position : Nat) :=
    (hread wrapped tokens position).1.trans
      (congrArg (position + ·) (Woven.lineLength h wrapped))
  obtain ⟨inside, head, hhead, hwithin⟩ := hfirst.ready.within containers
  obtain ⟨indented, next, hnext, hindented⟩ := Head.takeExactly hhead.ready 4
  obtain ⟨content, hcontent, hall⟩ := Head.takeAll hnext.ready
  obtain ⟨hunder, hunderClear⟩ := hnext.ready.underline?
  have hinterrupts := @Ready.interrupts extensions containers next.rest hnext.ready inside
  have hatEol := hcontent.ready.atEol
  have hrest (wrapped : Bool) : (next.side wrapped).rest = Marked.side wrapped next.rest := rfl
  cases hfound : (if inside && !indented then Source.underline? (Marked.side false next.rest)
      else none) with
  | some found =>
      obtain ⟨level, k⟩ := found
      obtain ⟨-, hk⟩ := Option.ite_none_right_eq_some.mp hfound
      have hclear := hunderClear level k hk
      obtain ⟨markers, hmarkers, hwidth⟩ := (hhead.trans hnext).passes
      refine ⟨_, _, (hfirst.trans hmarkers).trans hclear.passes,
        fun hnil => hclear.passes.length_le.trans_lt ((hhead.trans hnext).shorter hnil),
        fun wrapped start fuel tokens position hfuel => ?_⟩
      obtain ⟨fuel, rfl⟩ := Nat.exists_eq_succ_of_ne_zero (Nat.ne_zero_of_lt hfuel)
      have hwidth := hwidth wrapped
      simp only [Head.start, Nat.zero_add] at hwidth
      simp only [LeafReader.paragraphFrom, hlineRest, hlinePosition, hwithin, hindented, hrest,
        hunder wrapped, hfound, hclear.drop_side]
      refine ⟨?_, rfl⟩
      simp only [Marked.side_append, List.length_append, hclear.length_take, hwidth, Head.side]
      omega
  | none =>
      by_cases hstop : ((!indented && Source.interrupts extensions containers inside
          (Marked.side false next.rest)) || (content.side false).atEol) = true
      · refine ⟨_, _, hfirst, length_behindLine_lt, fun wrapped start fuel tokens position hfuel =>
          ?_⟩
        obtain ⟨fuel, rfl⟩ := Nat.exists_eq_succ_of_ne_zero (Nat.ne_zero_of_lt hfuel)
        simp only [LeafReader.paragraphFrom, hlineRest, hlinePosition, hwithin, hindented, hrest,
          hunder wrapped, hfound, hall, hatEol wrapped, hinterrupts wrapped, hstop, if_true]
        exact ⟨rfl, rfl⟩
      · have hleads := (hhead.trans hnext).trans hcontent
        have hnil : marked ≠ [] := by
          rintro rfl
          exact hstop (by simp [LineHead.atEol, Head.side, hleads.rest_nil rfl])
        obtain ⟨markers, hmarkers, hwidth⟩ := hleads.passes
        have hshorter := hleads.shorter hnil
        have hpassed := hfirst.trans hmarkers
        obtain ⟨passed, rest, hpasses, -, hside⟩ := ih _ hshorter hmarkers.ready rfl
        refine ⟨_, rest, hpassed.trans hpasses, fun _ => hpasses.length_le.trans_lt hshorter,
          fun wrapped start fuel tokens position hfuel => ?_⟩
        obtain ⟨fuel, rfl⟩ := Nat.exists_eq_succ_of_ne_zero (Nat.ne_zero_of_lt hfuel)
        have hwidth := hwidth wrapped
        simp only [Head.start, Nat.zero_add] at hwidth
        have hshort := hpassed.length_side h hshorter wrapped
        simp only [LeafReader.paragraphFrom, hlineRest, hlinePosition, hwithin, hindented, hrest,
          hunder wrapped, hfound, hall, hatEol wrapped, hinterrupts wrapped, hstop]
        obtain ⟨hposition, hrestEq⟩ := hside wrapped start fuel
          ((TokenLine.read extensions tokens position (marked.side wrapped)).lineBreak.toList ++
            (TokenLine.read extensions tokens position (marked.side wrapped)).tokens)
          (position + (Marked.side wrapped (line marked)).length + content.taken) (by omega)
        refine ⟨hposition.trans ?_, hrestEq⟩
        simp only [Marked.side_append, List.length_append, hwidth]
        omega

theorem Ready.paragraph {marked : Marked} (h : Ready marked) :
    ∃ passed rest, Passes marked passed rest ∧ (marked ≠ [] → rest.length < marked.length) ∧
      ∀ wrapped task position,
      Inline (LeafReader.paragraph extensions containers task position (marked.side wrapped))
        wrapped position passed rest := by
  obtain ⟨n, last, phase, hlast, hpipes⟩ := Woven.pipes h true false (fun _ => rfl) (by simp)
  have hcolumns := h.headColumns hlast n
  have hescaped := h.endsEscaped
  obtain ⟨found, hfound, hside⟩ := h.tableHead? containers true
  cases hhead : (if (extensions.tables && !LeafReader.endsEscaped (marked.side false)) = true then
      found else none) with
  | none =>
      obtain ⟨passed, rest, hpasses, hless, hread⟩ :=
        @Ready.paragraphFrom extensions containers marked h
      refine ⟨passed, rest, hpasses, hless, fun wrapped task position => ?_⟩
      have hnone : (if (extensions.tables && !LeafReader.endsEscaped (marked.side wrapped)) = true
          then Table.head? containers true (marked.side wrapped) else none) = none := by
        rw [hescaped wrapped, hside]
        split at hhead
        · next htables => rw [if_pos htables, hhead, Option.map_none]
        · next htables => rw [if_neg htables]
      simp only [LeafReader.paragraph, hnone]
      exact hread wrapped position _ _ position (Nat.lt_succ_self _)
  | some table =>
      obtain ⟨passed, rest⟩ := table
      obtain ⟨htables, htable⟩ := Option.ite_none_right_eq_some.mp hhead
      obtain ⟨hpasses, hless⟩ := hfound passed rest htable
      obtain ⟨rows, behind, hrows, hread⟩ := @Ready.tableRows extensions containers
        _ (Table.headColumns (marked.side false) n (Marked.side false last)) 0 rest hpasses.ready
        (Nat.le_refl _)
      refine ⟨_, behind, hpasses.trans hrows, fun _ => hrows.length_le.trans_lt hless,
        fun wrapped task position => ?_⟩
      have hsome : (if (extensions.tables && !LeafReader.endsEscaped (marked.side wrapped)) = true
          then Table.head? containers true (marked.side wrapped) else none) =
            some ((Marked.side wrapped passed).length, Marked.side wrapped rest) := by
        rw [hescaped wrapped, if_pos htables, hside, htable, Option.map_some]
      simp only [LeafReader.paragraph, hsome, hpipes, hcolumns wrapped, LeafReader.tableBody,
        hread wrapped _ _ (Nat.lt_succ_self _)]
      exact ⟨by simp [Nat.add_assoc], rfl⟩

end Canonmark.SpacedDestination
