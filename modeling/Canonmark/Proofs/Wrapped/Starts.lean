import Canonmark.Proofs.Wrapped.Lines
import Canonmark.Source.BlockStart

/-!
# Starts of blocks on two sides

What may start a block is decided in front of the first `](` of a line, or at its end.
-/

namespace Canonmark.SpacedDestination

open Source

theorem Ready.rule? {marked : Marked} (h : Ready marked) : Agrees Source.rule? marked := by
  rcases h.cases with rfl | ⟨c, tail, rfl, -⟩
  · exact ⟨fun wrapped => by simp, fun n hn => by cases hn⟩
  by_cases hc : (decide (c = '*') || decide (c = '-') || decide (c = '_')) = true
  · have hquiet : Quiet fun d => decide (d = c) || decide (d = ' ') || decide (d = '\t') := by
      simp only [Bool.or_eq_true, decide_eq_true_eq] at hc
      rcases hc with (rfl | rfl) | rfl <;> exact ⟨rfl, rfl, rfl⟩
    obtain ⟨text, rest, hsplit, hready, hclear, hside⟩ := h.run hquiet
    simp only [Marked.side_cons_false] at hside
    constructor
    case side =>
      intro wrapped
      simp only [Marked.side_cons_false, Source.rule?, hc, if_true, hside,
        hready.eol?.side wrapped]
    case clear =>
      intro n hn
      simp only [Marked.side_cons_false, Source.rule?, hc, if_true, hside] at hn
      split at hn
      · next k hk =>
          split at hn
          · cases hn
            exact hclear.add (by rw [hsplit, Clear.drop_append]; exact hready.eol?.clear k hk)
          · cases hn
      · cases hn
  · exact ⟨fun wrapped => by simp [Source.rule?, hc], fun n hn => by simp [Source.rule?, hc] at hn⟩

theorem Ready.headingLevel? {marked : Marked} (h : Ready marked) :
    Agrees Source.headingLevel? marked := by
  obtain ⟨text, rest, -, hready, hclear, hside⟩ :=
    h.run (@quiet_eq '#' (by decide) (by decide) (by decide))
  constructor
  case side =>
    intro wrapped
    rcases hready.cases with rfl | ⟨c, behind, rfl, -⟩ <;>
      simp [Source.headingLevel?, countWhile, hside]
  case clear =>
    intro n hn
    simp only [Source.headingLevel?, countWhile, hside] at hn
    obtain ⟨-, heq⟩ := Option.ite_none_right_eq_some.mp hn
    cases heq
    exact hclear

theorem Ready.underline? {marked : Marked} (h : Ready marked) :
    (∀ wrapped, Source.underline? (marked.side wrapped) = Source.underline? (marked.side false)) ∧
      ∀ level n, Source.underline? (marked.side false) = some (level, n) → Clear n marked := by
  rcases h.cases with rfl | ⟨c, tail, rfl, -⟩
  · exact ⟨fun wrapped => by simp, fun level n hn => by cases hn⟩
  by_cases hc : (decide (c = '=') || decide (c = '-')) = true
  · have hquiet : Quiet fun d => decide (d = c) := by
      simp only [Bool.or_eq_true, decide_eq_true_eq] at hc
      rcases hc with rfl | rfl <;> exact ⟨rfl, rfl, rfl⟩
    obtain ⟨text, rest, hsplit, hready, hclear, hside⟩ := h.run hquiet
    simp only [Marked.side_cons_false] at hside
    constructor
    · intro wrapped
      simp only [Marked.side_cons_false, Source.underline?, countWhile, hc, if_true, hside,
        hready.blankLine?.side wrapped]
    · intro level n hn
      simp only [Marked.side_cons_false, Source.underline?, countWhile, hc, if_true, hside] at hn
      obtain ⟨k, hk, heq⟩ := Option.map_eq_some_iff.mp hn
      cases heq
      exact hclear.add (by rw [hsplit, Clear.drop_append]; exact hready.blankLine?.clear k hk)
  · exact ⟨fun wrapped => by simp [Source.underline?, hc], fun level n hn => by
      simp [Source.underline?, hc] at hn⟩

theorem Ready.fence? {marked : Marked} (h : Ready marked) :
    (∀ wrapped, Source.fence? (marked.side wrapped) = Source.fence? (marked.side false)) ∧
      ∀ n c, Source.fence? (marked.side false) = some (n, c) → Clear n marked := by
  rcases h.cases with rfl | ⟨c, tail, rfl, -⟩
  · exact ⟨fun wrapped => by simp, fun n c hn => by cases hn⟩
  by_cases hc : (decide (c = '\x60') || decide (c = '~')) = true
  · have hne : c ≠ '<' ∧ c ≠ '>' := by
      simp only [Bool.or_eq_true, decide_eq_true_eq] at hc
      rcases hc with rfl | rfl <;> decide
    have hquiet : Quiet fun d => decide (d = c) := by
      simp only [Bool.or_eq_true, decide_eq_true_eq] at hc
      rcases hc with rfl | rfl <;> exact ⟨rfl, rfl, rfl⟩
    obtain ⟨text, rest, hsplit, hready, hclear, hside⟩ := h.run hquiet
    have hinfo (wrapped : Bool) :
        ((rest.side wrapped).take (lineLength (rest.side wrapped))).contains c =
          ((rest.side false).take (lineLength (rest.side false))).contains c := by
      rw [Woven.take_lineLength hready, Woven.take_lineLength hready, Bool.eq_iff_iff,
        List.contains_iff_mem, List.contains_iff_mem]
      exact Woven.mem_line_side hready hne.1 hne.2 wrapped
    simp only [Marked.side_cons_false] at hside
    constructor
    · intro wrapped
      simp only [Marked.side_cons_false, Source.fence?, countWhile, hc, if_true, hside,
        hinfo wrapped]
    · intro n d hn
      simp only [Marked.side_cons_false, Source.fence?, countWhile, hc, if_true, hside] at hn
      obtain ⟨-, heq⟩ := Option.ite_none_left_eq_some.mp hn
      cases heq
      exact hclear
  · exact ⟨fun wrapped => by simp [Source.fence?, hc], fun n d hn => by
      simp [Source.fence?, hc] at hn⟩

theorem Ready.closingFence? {marked : Marked} (h : Ready marked) {c : Char} (size : Nat)
    (hc : c = '\x60' ∨ c = '~') : Agrees (Source.closingFence? c size) marked := by
  have hquiet : Quiet fun d => decide (d = c) := by
    rcases hc with rfl | rfl <;> exact ⟨rfl, rfl, rfl⟩
  have hempty (wrapped : Bool) :
      (marked.side wrapped).isEmpty = (marked.side false).isEmpty := by
    rcases h.cases with rfl | ⟨d, tail, rfl, -⟩ <;> simp
  obtain ⟨text, rest, hsplit, hready, hclear, hside⟩ := h.run hquiet
  obtain ⟨spaces, behind, hsplit', hready', hclear', hside'⟩ :=
    hready.run (@quiet_eq ' ' (by decide) (by decide) (by decide))
  have hall : Clear (text.length + spaces.length) marked :=
    hclear.add (by rwa [hsplit, Clear.drop_append])
  have hdrop (wrapped : Bool) :
      (marked.side wrapped).drop (text.length + spaces.length) = behind.side wrapped := by
    rw [← List.drop_drop, (hside wrapped).2.1, (hside' wrapped).2.1]
  constructor
  case side =>
    intro wrapped
    simp only [Source.closingFence?, countWhile, hempty wrapped, hside, hside', hdrop,
      hready'.eol?.side wrapped]
  case clear =>
    intro n hn
    simp only [Source.closingFence?, countWhile, hside, hside', hdrop] at hn
    split at hn
    · cases hn
      exact Clear.zero h
    · obtain ⟨-, heq⟩ := Option.ite_none_left_eq_some.mp hn
      obtain ⟨k, -, rfl⟩ := Option.map_eq_some_iff.mp heq
      exact hall

theorem Ready.closingMetadata? {marked : Marked} (h : Ready marked) :
    Agrees Source.closingMetadata? marked := by
  have hcount (c : Char) (hquiet : Quiet fun d => decide (d = c)) :
      countWhile (· = c) (marked.side false) = 3 → Clear 3 marked := fun heq =>
    heq ▸ h.clear_countWhile hquiet
  have hhyphens : Quiet fun d => decide (d = '-') := ⟨rfl, rfl, rfl⟩
  have hdots : Quiet fun d => decide (d = '.') := ⟨rfl, rfl, rfl⟩
  by_cases hmarks : (decide (countWhile (· = '-') (marked.side false) = 3) ||
      decide (countWhile (· = '.') (marked.side false) = 3)) = true
  · have hclear : Clear 3 marked := by
      simp only [Bool.or_eq_true, decide_eq_true_eq] at hmarks
      rcases hmarks with heq | heq
      · exact hcount _ hhyphens heq
      · exact hcount _ hdots heq
    have hquiet : Quiet fun d => decide (d = ' ') := ⟨rfl, rfl, rfl⟩
    have hspaces := hclear.ready.clear_countWhile hquiet
    have hdrop (wrapped : Bool) := hclear.drop_side wrapped
    have hall := hclear.add hspaces
    constructor
    case side =>
      intro wrapped
      simp only [Source.closingMetadata?, h.countWhile_side hhyphens wrapped,
        h.countWhile_side hdots wrapped, hmarks, if_true, hdrop,
        hclear.ready.countWhile_side hquiet wrapped, hall.drop_side,
        hall.ready.eol?.side wrapped]
    case clear =>
      intro n hn
      simp only [Source.closingMetadata?, hmarks, if_true, hdrop] at hn
      obtain ⟨k, -, rfl⟩ := Option.map_eq_some_iff.mp hn
      exact hall
  · refine ⟨fun wrapped => ?_, fun n hn => ?_⟩
    · simp [Source.closingMetadata?, h.countWhile_side hhyphens wrapped,
        h.countWhile_side hdots wrapped, hmarks]
    · simp [Source.closingMetadata?, hmarks] at hn

theorem Ready.metadataCloses {marked : Marked} (h : Ready marked) (wrapped : Bool)
    {fuel fuel' : Nat} (hfuel : (marked.side wrapped).length ≤ fuel)
    (hfuel' : (marked.side false).length ≤ fuel') :
    Source.metadataCloses fuel (marked.side wrapped) =
      Source.metadataCloses fuel' (marked.side false) := by
  induction fuel generalizing marked fuel' with
  | zero =>
      rcases h.cases with rfl | ⟨c, rest, rfl, -⟩
      · cases fuel' <;> simp [Source.metadataCloses]
      · simp at hfuel
  | succ fuel ih =>
      rcases h.cases with rfl | ⟨c, rest, rfl, -⟩
      · cases fuel' <;> simp [Source.metadataCloses]
      cases fuel' with
      | zero => simp at hfuel'
      | succ fuel' =>
          have hnext := Woven.ready_behindLine h
          have hless := @Ready.length_behindLine c rest wrapped
          have hless' := @Ready.length_behindLine c rest false
          have hrest := ih hnext (by omega) (show _ ≤ fuel' by omega)
          have hempty (side : Bool) : (Marked.side side ((c, false) :: rest)).isEmpty = false := by
            simp
          simp only [Source.metadataCloses, hempty, h.closingMetadata?.side wrapped,
            Woven.drop_lineLength h, hrest]

theorem Ready.all_isSpace_line {marked : Marked} (h : Ready marked) (wrapped : Bool) :
    (Marked.side wrapped (line marked)).all Ascii.isSpace =
      (Marked.side false (line marked)).all Ascii.isSpace := by
  induction marked with
  | nil => simp [line]
  | cons mark rest ih =>
      rcases h.cases with hnil | ⟨c, rest', hcons, hcr, -⟩
      · cases hnil
      cases hcons
      by_cases hn : c = '\n'
      · simp [line, hn]
      by_cases hc : Ascii.isSpace c = true
      · have hback : c ≠ '\\' := by rintro rfl; cases hc
        have hbracket : c ≠ ']' := by rintro rfl; cases hc
        simpa [line, hn, hc] using ih (h.tail hback hbracket)
      · simp [line, hn, hc]

theorem Ready.startsMetadata {marked : Marked} (h : Ready marked) (wrapped : Bool) :
    Source.startsMetadata (marked.side wrapped) = Source.startsMetadata (marked.side false) := by
  have hhyphens : Quiet fun d => decide (d = '-') := ⟨rfl, rfl, rfl⟩
  by_cases hcount : countWhile (· = '-') (marked.side false) = 3
  · have hclear : Clear 3 marked := hcount ▸ h.clear_countWhile hhyphens
    have hready := hclear.ready
    have hnext := Woven.ready_behindLine hready
    simp only [Source.startsMetadata, h.countWhile_side hhyphens wrapped, hclear.drop_side,
      Woven.take_lineLength hready, Woven.drop_lineLength hready,
      hready.all_isSpace_line wrapped, hnext.isBlankLine wrapped,
      hnext.closingMetadata?.side wrapped,
      hnext.metadataCloses wrapped (Nat.le_refl _) (Nat.le_refl _)]
  · simp [Source.startsMetadata, h.countWhile_side hhyphens wrapped, hcount]

/-! ## Items -/

theorem itemNumber?_pos {text : Text} {n number : Nat} {delimiter : Char}
    (h : Source.itemNumber? text = some (n, delimiter, number)) : 0 < n := by
  unfold Source.itemNumber? at h
  simp only at h
  split at h
  · obtain ⟨-, heq⟩ := Option.ite_none_right_eq_some.mp h
    cases heq
    exact Nat.succ_pos _
  · cases h

theorem Ready.itemNumber? {marked : Marked} (h : Ready marked) :
    (∀ wrapped, Source.itemNumber? (marked.side wrapped) =
      Source.itemNumber? (marked.side false)) ∧
      ∀ n delimiter number, Source.itemNumber? (marked.side false) = some (n, delimiter, number) →
        Clear n marked := by
  have hquiet : Quiet Ascii.isDigit := ⟨rfl, rfl, rfl⟩
  obtain ⟨digits, rest, hsplit, hready, hclear, hside⟩ := h.run hquiet
  constructor
  · intro wrapped
    rcases hready.cases with rfl | ⟨c, behind, rfl, -⟩ <;> simp [Source.itemNumber?, hside]
  · intro n delimiter number hn
    rcases hready.cases with rfl | ⟨c, behind, rfl, -⟩
    · simp [Source.itemNumber?, hside] at hn
    · simp only [Source.itemNumber?, hside, Marked.side_cons_false] at hn
      obtain ⟨hmarker, heq⟩ := Option.ite_none_right_eq_some.mp hn
      cases heq
      simp only [Bool.and_eq_true, Bool.or_eq_true, decide_eq_true_eq] at hmarker
      have hnext : Ready behind := by
        rcases hmarker.2 with rfl | rfl <;> exact hready.tail (by decide) (by decide)
      refine hclear.add ?_
      rw [hsplit, Clear.drop_append]
      exact (Clear.zero hnext).cons

namespace Head

variable {head : Head}

theorem finishItem {width : Nat} (h : Clear width head.rest) (hpos : 0 < width) (indent : Nat)
    (marker : Char) (number : Nat) :
    ∃ found : Option (ItemMarker × Head),
      (∀ item next, found = some (item, next) → Advances head next) ∧
      ∀ wrapped, LineHead.itemMarker?.finish indent (head.side wrapped) marker number width =
        found.map fun (item, next) => (item, side wrapped next) := by
  obtain ⟨behind, ⟨hbehind, htaken⟩, hside⟩ := advance h
  obtain ⟨spaced, next, hnext, hside'⟩ := takeExactly hbehind.ready 1
  obtain ⟨columns, content, hcontent, hside''⟩ := takeUpTo hnext.ready 4
  have heol := hnext.ready.atEol
  have hblank (wrapped : Bool) : isBlankLine (next.side wrapped).rest =
      isBlankLine (next.side false).rest := hnext.ready.isBlankLine wrapped
  have hadvances : Advances head next :=
    Advances.trans_leads ⟨hbehind, by rw [htaken]; omega⟩ hnext
  by_cases hgoes : (!(spaced || (next.side false).atEol)) = true
  · refine ⟨none, by simp, fun wrapped => ?_⟩
    simp only [LineHead.itemMarker?.finish, hside, hside', heol wrapped, hgoes, if_true,
      Option.map_none]
  by_cases hline : isBlankLine (next.side false).rest = true
  · refine ⟨some (⟨marker, number, indent + width + 1⟩, next), ?_, fun wrapped => ?_⟩
    · rintro item last heq
      cases heq
      exact hadvances
    · simp only [LineHead.itemMarker?.finish, hside, hside', heol wrapped, hgoes,
        hblank wrapped, hline, if_true, Option.map_some]
      rfl
  by_cases hcolumns : columns < 4
  · refine ⟨some (⟨marker, number, indent + width + 1 + columns⟩, content), ?_, fun wrapped => ?_⟩
    · rintro item last heq
      cases heq
      exact hadvances.trans_leads hcontent
    · simp only [LineHead.itemMarker?.finish, hside, hside', heol wrapped, hgoes,
        hblank wrapped, hline, hside'', hcolumns, if_true, Option.map_some]
      rfl
  · refine ⟨some (⟨marker, number, indent + width + 1⟩, next), ?_, fun wrapped => ?_⟩
    · rintro item last heq
      cases heq
      exact hadvances
    · simp only [LineHead.itemMarker?.finish, hside, hside', heol wrapped, hgoes, if_false,
        hblank wrapped, hline, hside'', hcolumns, Option.map_some]
      rfl

theorem itemMarker? (h : Ready head.rest) (indent : Nat) :
    ∃ found : Option (ItemMarker × Head),
      (∀ item next, found = some (item, next) → Advances head next) ∧
      ∀ wrapped, LineHead.itemMarker? indent (head.side wrapped) =
        found.map fun (item, next) => (item, side wrapped next) := by
  have hrest (wrapped : Bool) : (head.side wrapped).rest = Marked.side wrapped head.rest := rfl
  rcases h.cases with hnil | ⟨c, rest, hcons, -⟩
  · exact ⟨none, by simp, fun wrapped => by simp [LineHead.itemMarker?, hrest, hnil]⟩
  have hfront (wrapped : Bool) : (head.side wrapped).rest = c :: Marked.side wrapped rest := by
    rw [hrest, hcons, Marked.side_cons_false]
  by_cases hbullet : isBullet c = true
  · have hclear : Clear 1 head.rest := by
      rw [hcons] at h ⊢
      have hready := h.tail (c := c) (by rintro rfl; cases hbullet) (by rintro rfl; cases hbullet)
      exact (Clear.zero hready).cons
    have hrule (wrapped : Bool) : Source.rule? (c :: Marked.side wrapped rest) =
        Source.rule? (c :: Marked.side false rest) := by
      rw [← hfront, ← hfront]
      exact h.rule?.side wrapped
    by_cases hisRule : (Source.rule? (c :: Marked.side false rest)).isSome = true
    · exact ⟨none, by simp, fun wrapped => by
        simp [LineHead.itemMarker?, hfront, hbullet, hrule wrapped, hisRule]⟩
    · obtain ⟨found, hleads, hside⟩ := finishItem hclear Nat.one_pos indent c 0
      exact ⟨found, hleads, fun wrapped => by
        simp [LineHead.itemMarker?, hfront, hbullet, hrule wrapped, hisRule, hside]⟩
  · obtain ⟨hnumber, hclear⟩ := h.itemNumber?
    simp only [hcons, Marked.side_cons_false] at hnumber
    cases hfound : Source.itemNumber? (c :: Marked.side false rest) with
    | none => exact ⟨none, by simp, fun wrapped => by
        simp [LineHead.itemMarker?, hfront, hbullet, hnumber wrapped, hfound]⟩
    | some number =>
        obtain ⟨n, delimiter, number⟩ := number
        obtain ⟨found, hleads, hside⟩ := finishItem
          (hclear n delimiter number (by rw [hcons, Marked.side_cons_false, hfound]))
            (itemNumber?_pos hfound) indent delimiter number
        exact ⟨found, hleads, fun wrapped => by
          simp [LineHead.itemMarker?, hfront, hbullet, hnumber wrapped, hfound, hside]⟩

/-- What makes a check box out of its character and the one behind it. -/
def isBox (c d : Char) : Bool :=
  Ascii.isSpace d && (Ascii.isBlank c || decide (c = 'x') || decide (c = 'X'))

theorem taskMarker?_eq_none {head : LineHead}
    (h : ∀ c d more, (head.takeUpTo 3).2.rest = '[' :: c :: ']' :: d :: more → isBox c d = false) :
    head.taskMarker? = none := by
  simp only [LineHead.taskMarker?]
  split
  · next c d more heq =>
      have hbox := h c d more heq
      simp only [isBox, Bool.and_eq_false_iff, Bool.or_eq_false_iff, decide_eq_false_iff_not]
        at hbox
      rcases hbox with hspace | ⟨⟨hblank, hx⟩, hX⟩
      · simp [hspace]
      · simp [hblank, hx, hX]
  · rfl

theorem taskMarker?_eq_some {head : LineHead} {c d : Char} {more : Text}
    (h : (head.takeUpTo 3).2.rest = '[' :: c :: ']' :: d :: more) (hbox : isBox c d = true) :
    head.taskMarker? = some (!Ascii.isBlank c, (head.takeUpTo 3).2.advance 3) := by
  simp only [isBox, Bool.and_eq_true, Bool.or_eq_true, decide_eq_true_eq] at hbox
  simp only [LineHead.taskMarker?, h, hbox.1]
  by_cases hblank : Ascii.isBlank c = true
  · simp [hblank]
  · have hx : c = 'x' ∨ c = 'X' := by simpa [hblank] using hbox.2
    simp [hblank, hx]

theorem clear_box {marked : Marked} (h : Ready marked) {wrapped : Bool} {c d : Char} {more : Text}
    (heq : marked.side wrapped = '[' :: c :: ']' :: d :: more) (hbox : isBox c d = true) :
    Clear 3 marked ∧ ∃ rest, marked =
      ('[', false) :: (c, false) :: (']', false) :: (d, false) :: rest := by
  have hc : c ≠ '\\' ∧ c ≠ ']' := by constructor <;> rintro rfl <;> simp [isBox] at hbox <;>
    simp [Ascii.isBlank] at hbox
  have hd : d ≠ '(' := by
    rintro rfl
    simp [isBox] at hbox
    cases hbox.1
  rcases h.cases with rfl | ⟨c0, rest, rfl, -⟩
  · simp at heq
  simp only [Marked.side_cons_false, List.cons.injEq] at heq
  obtain ⟨rfl, hsecond⟩ := heq
  have h1 := h.tail (by decide) (by decide)
  rcases h1.cases with rfl | ⟨c1, rest, rfl, -⟩
  · simp at hsecond
  simp only [Marked.side_cons_false, List.cons.injEq] at hsecond
  obtain ⟨rfl, hthird⟩ := hsecond
  have h2 := h1.tail hc.1 hc.2
  rcases h2.cases with rfl | ⟨c2, rest, rfl, -, h3⟩
  · simp at hthird
  simp only [Marked.side_cons_false, List.cons.injEq] at hthird
  obtain ⟨rfl, hlast⟩ := hthird
  have h3 : Woven .bracket rest := h3
  rcases h3.cases (by decide) (by decide) with rfl | ⟨c3, rest, rfl, -⟩
  · simp at hlast
  simp only [Marked.side_cons_false, List.cons.injEq] at hlast
  obtain ⟨rfl, -⟩ := hlast
  exact ⟨(Clear.zero (Ready.behind_bracket h3 hd)).cons.cons.cons, rest, rfl⟩

theorem taskMarker? (h : Ready head.rest) :
    ∃ found : Option (Bool × Head), (∀ checked next, found = some (checked, next) → Leads head next)
      ∧ ∀ wrapped, LineHead.taskMarker? (head.side wrapped) =
        found.map fun (checked, next) => (checked, side wrapped next) := by
  obtain ⟨missing, box, hbox, hside⟩ := takeUpTo h 3
  have hrest (wrapped : Bool) :
      ((head.side wrapped).takeUpTo 3).2.rest = Marked.side wrapped box.rest := by
    rw [hside]
    rfl
  by_cases hfront : ∃ wrapped c d more,
      Marked.side wrapped box.rest = '[' :: c :: ']' :: d :: more ∧ isBox c d = true
  · obtain ⟨wrapped, c, d, more, heq, hisBox⟩ := hfront
    obtain ⟨hclear, rest, hmarks⟩ := clear_box hbox.ready heq hisBox
    obtain ⟨next, ⟨hleads, -⟩, hadvance⟩ := advance hclear
    refine ⟨some (!Ascii.isBlank c, next), ?_, fun wrapped => ?_⟩
    · rintro checked last heq
      cases heq
      exact hbox.trans hleads
    · have hfound := @taskMarker?_eq_some (head.side wrapped) c d (Marked.side wrapped rest)
        (by simp [hrest, hmarks]) hisBox
      rw [hfound, hside, hadvance]
      rfl
  · refine ⟨none, by simp, fun wrapped => taskMarker?_eq_none fun c d more heq => ?_⟩
    rw [hrest] at heq
    exact Bool.eq_false_iff.mpr fun hisBox => hfront ⟨wrapped, c, d, more, heq, hisBox⟩

end Head

theorem Ready.isEmptyItem {marked : Marked} (h : Ready marked) (wrapped : Bool) :
    Source.isEmptyItem (marked.side wrapped) = Source.isEmptyItem (marked.side false) := by
  rw [Source.isEmptyItem, Source.isEmptyItem, h.blankLine?.side]
  cases hblank : Source.blankLine? (marked.side false) with
  | none => rfl
  | some n =>
      have hclear := h.blankLine?.clear n hblank
      simp only [hclear.drop_side, hclear.ready.isBlankLine wrapped]

def isApart : Text → Bool
  | [] => true
  | c :: _ => c = ' ' || c = '\t' || c = '\n' || c = '\r'

theorem Ready.itemStart? {marked : Marked} (h : Ready marked) (wrapped : Bool) :
    Source.itemStart? (marked.side wrapped) = Source.itemStart? (marked.side false) := by
  rcases h.cases with rfl | ⟨c, rest, rfl, -⟩
  · simp
  have hstart {n : Nat} (hclear : Clear n ((c, false) :: rest)) (marker : Char) (number : Nat) :
      (if isApart ((c :: Marked.side wrapped rest).drop n) then
          some (marker, number, Source.isEmptyItem ((c :: Marked.side wrapped rest).drop n))
        else none) =
      if isApart ((c :: Marked.side false rest).drop n) then
          some (marker, number, Source.isEmptyItem ((c :: Marked.side false rest).drop n))
        else none := by
    have hempty := hclear.ready.isEmptyItem wrapped
    rw [← Marked.side_cons_false, ← Marked.side_cons_false, hclear.drop_side, hclear.drop_side,
      hempty]
    rcases hclear.ready.cases with hnil | ⟨d, more, hcons, -⟩
    · rw [hnil]
      simp
    · rw [hcons]
      simp [isApart]
  have hone (hback : c ≠ '\\') (hbracket : c ≠ ']') : Clear 1 ((c, false) :: rest) :=
    (Clear.zero (h.tail hback hbracket)).cons
  rw [Marked.side_cons_false, Marked.side_cons_false]
  by_cases hbullet : isBullet c = true
  · simp only [Source.itemStart?, hbullet, if_true]
    exact hstart (hone (by rintro rfl; cases hbullet) (by rintro rfl; cases hbullet)) c 0
  by_cases hdelimiter : (decide (c = '.') || decide (c = ')')) = true
  · simp only [Source.itemStart?, hbullet, hdelimiter, if_true]
    exact hstart (hone (by rintro rfl; simp at hdelimiter) (by rintro rfl; simp at hdelimiter)) c 0
  · obtain ⟨hnumber, hclear⟩ := h.itemNumber?
    simp only [Marked.side_cons_false] at hnumber hclear
    simp only [Source.itemStart?, hbullet, hdelimiter, hnumber wrapped]
    cases hfound : Source.itemNumber? (c :: Marked.side false rest) with
    | none => rfl
    | some found =>
        obtain ⟨n, delimiter, number⟩ := found
        exact hstart (hclear n delimiter number hfound) delimiter number

end Canonmark.SpacedDestination
