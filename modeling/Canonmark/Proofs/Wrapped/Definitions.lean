import Canonmark.Proofs.Wrapped.Lines
import Canonmark.Proofs.Wrapped.Tables
import Canonmark.Source.Definition

/-!
# Definitions on two sides

The destination and the title of a definition may have marks in them. Readers pass them in step,
and what is behind the definition is blank on both sides.
-/

namespace Canonmark.SpacedDestination

open Source

variable {extensions : Extensions} {containers : List Container}

theorem Ready.interruptsHtml {marked : Marked} (h : Ready marked) (wrapped : Bool) :
    (decide ((marked.side wrapped).head? = some '<') &&
        HtmlBlock.interrupts ((marked.side wrapped).drop 1)) =
      (decide ((marked.side false).head? = some '<') &&
        HtmlBlock.interrupts ((marked.side false).drop 1)) := by
  rcases h.cases with rfl | ⟨c, rest, rfl, -, hrest⟩
  · simp
  by_cases hc : c = '<'
  · subst hc
    have hline := hrest.sameLine wrapped
    simp [hline.interrupts]
  · simp [hc]

theorem Ready.startsBlock {marked : Marked} (h : Ready marked) (inside inTable wrapped : Bool) :
    Source.startsBlock extensions inside inTable (marked.side wrapped) =
      Source.startsBlock extensions inside inTable (marked.side false) := by
  simp only [Source.startsBlock, h.interruptsHtml wrapped]
  simp only [h.eol?.side wrapped, h.rule?.side wrapped, h.headingLevel?.side wrapped,
    h.fence?.1 wrapped, h.head?_side wrapped, h.itemStart? wrapped, h.startsFootnote wrapped]

theorem Ready.interrupts {marked : Marked} (h : Ready marked) (inside wrapped : Bool) :
    Source.interrupts extensions containers inside (marked.side wrapped) =
      Source.interrupts extensions containers inside (marked.side false) := by
  obtain ⟨found, -, hside⟩ := h.tableHead? containers false
  simp only [Source.interrupts, h.startsBlock inside false wrapped, h.head?_side wrapped, hside,
    Option.isSome_map]

theorem Ready.follow? {marked : Marked} (h : Ready marked) :
    Agrees (Definition.follow? extensions containers) marked := by
  obtain ⟨inside, head, hleads, hwithin⟩ := h.within containers
  obtain ⟨indented, next, hnext, hside⟩ := Head.takeExactly hleads.ready 4
  have hinterrupts := @Ready.interrupts extensions containers next.rest hnext.ready inside
  have hunderline := hnext.ready.underline?.1
  obtain ⟨n, hclear, -, htaken⟩ := (hleads.trans hnext).clear
  have hstart : (Head.start marked).taken = 0 := rfl
  rw [hstart, Nat.zero_add] at htaken
  have hrest (wrapped : Bool) : (next.side wrapped).rest = Marked.side wrapped next.rest := rfl
  have htakenSide (wrapped : Bool) : (next.side wrapped).taken = n := htaken
  constructor
  case side =>
    intro wrapped
    simp only [Definition.follow?, hwithin, hside, hrest, htakenSide, hinterrupts wrapped,
      hunderline wrapped]
  case clear =>
    intro k hk
    simp only [Definition.follow?, hwithin, hside, hrest, htakenSide] at hk
    split at hk
    · cases hk
      exact hclear
    · obtain ⟨-, heq⟩ := Option.ite_none_left_eq_some.mp hk
      cases heq
      exact hclear

/-- No mark is at the front, and none comes before another parenthesis or bracket. -/
structure Settled (phase : Phase) (marked : Marked) : Prop where
  woven : Woven phase marked
  not_gap : phase ≠ .gap
  front : marked = [] ∨ ∃ c rest, marked = (c, false) :: rest

theorem Woven.front {phase : Phase} {marked : Marked} (h : Woven phase marked)
    (hgap : phase ≠ .gap) (hinside : phase ≠ .inside false) :
    marked = [] ∨ ∃ c rest, marked = (c, false) :: rest := by
  rcases h.cases hgap hinside with hnil | ⟨c, rest, hcons, -⟩
  · exact .inl hnil
  · exact .inr ⟨c, rest, hcons⟩

theorem Ready.settled {marked : Marked} (h : Ready marked) : Settled (.plain false) marked :=
  ⟨h, by simp, Woven.front h (by simp) (by simp)⟩

/-- Behind white space no mark follows, unless a gap goes on. -/
theorem Settled.next {phase : Phase} {c : Char} {rest : Marked}
    (h : Settled phase ((c, false) :: rest)) (hc : goesOn c = true) :
    Settled (phase.next c) rest := by
  obtain ⟨-, hrest⟩ := (Woven.cons_false_iff _ _ _).mp h.woven
  have hgap : phase.next c ≠ .gap := fun heq => by
    rcases Phase.next_gap heq with ⟨-, rfl⟩ | ⟨hphase, -⟩
    · cases hc
    · exact h.not_gap hphase
  refine ⟨hrest, hgap, ?_⟩
  have hinside : phase.next c ≠ .inside false := by
    unfold Phase.next
    split
    · simp
    · cases phase with
      | plain escaped => cases escaped <;> simp only [Phase.behind] <;> split_ifs <;> simp
      | bracket => simp only [Phase.behind]; split_ifs <;> simp
      | gap => exact absurd rfl h.not_gap
      | inside onward => simp [hc]
      | tail angle => simp only; split_ifs <;> simp
      | closed => simp
  exact hrest.front hgap hinside

theorem Settled.eol? {phase : Phase} {marked : Marked} (h : Settled phase marked) :
    Agrees Source.eol? marked := by
  rcases h.front with rfl | ⟨c, rest, rfl⟩
  · refine ⟨fun wrapped => by simp, fun n hn => ?_⟩
    cases hn
    exact Clear.zero Ready.nil
  · have hcr : c ≠ '\r' := by
      rintro rfl
      exact h.woven.carriageReturn false (by simp)
    by_cases hc : c = '\n'
    · subst hc
      refine ⟨fun wrapped => by simp [Source.eol?], fun n hn => ?_⟩
      cases hn
      exact (Clear.zero ((Woven.cons_false_iff _ _ _).mp h.woven).2).cons
    · refine ⟨fun wrapped => by simp [eol?_cons hc hcr], fun n hn => ?_⟩
      rw [Marked.side_cons_false, eol?_cons hc hcr] at hn
      cases hn

/-- The first `n` characters, from a phase on, are space without marks, and nothing is due behind
them. -/
def SettledBehind (phase : Phase) (n : Nat) (marked : Marked) : Prop :=
  ∃ (text : Text) (rest : Marked) (phase' : Phase), text.length = n ∧
    marked = Marked.plain text ++ rest ∧ Settled phase' rest ∧
      (phase = .plain false → phase' = .plain false)

theorem SettledBehind.drop_side {phase : Phase} {n : Nat} {marked : Marked}
    (h : SettledBehind phase n marked) (wrapped : Bool) :
    (marked.side wrapped).drop n = Marked.side wrapped (marked.drop n) := by
  obtain ⟨text, rest, phase', rfl, rfl, -⟩ := h
  rw [Clear.drop_append, Marked.side_append, Marked.side_plain, List.drop_left]

theorem SettledBehind.length_take {phase : Phase} {n : Nat} {marked : Marked}
    (h : SettledBehind phase n marked) (wrapped : Bool) :
    (Marked.side wrapped (marked.take n)).length = n := by
  obtain ⟨text, rest, phase', rfl, rfl, -⟩ := h
  have htake : (Marked.plain text ++ rest).take text.length = Marked.plain text := by
    rw [← Marked.length_plain text, List.take_left]
  rw [htake, Marked.side_plain]

theorem SettledBehind.settled {phase : Phase} {n : Nat} {marked : Marked}
    (h : SettledBehind phase n marked) : ∃ phase', Settled phase' (marked.drop n) := by
  obtain ⟨text, rest, phase', rfl, rfl, hsettled, -⟩ := h
  exact ⟨phase', by rwa [Clear.drop_append]⟩

theorem SettledBehind.ready {n : Nat} {marked : Marked}
    (h : SettledBehind (.plain false) n marked) : Ready (marked.drop n) := by
  obtain ⟨text, rest, phase', rfl, rfl, hsettled, hphase⟩ := h
  rw [Clear.drop_append]
  obtain rfl := hphase rfl
  exact hsettled.woven

theorem Clear.settledBehind {phase : Phase} {n k : Nat} {marked : Marked} (h : Clear n marked)
    (hk : SettledBehind (.plain false) k (marked.drop n)) : SettledBehind phase (n + k) marked := by
  obtain ⟨text, rest, rfl, rfl, -⟩ := h
  rw [Clear.drop_append] at hk
  obtain ⟨more, behind, phase', rfl, rfl, hsettled, hphase⟩ := hk
  exact ⟨text ++ more, behind, phase', by simp, by simp, hsettled, fun _ => hphase rfl⟩

theorem Settled.blanks {phase : Phase} {marked : Marked} (h : Settled phase marked) :
    ∃ n, SettledBehind phase n marked ∧
      ∀ wrapped, countWhile Ascii.isBlank (marked.side wrapped) = n := by
  induction marked generalizing phase with
  | nil => exact ⟨0, ⟨[], [], phase, rfl, rfl, h, id⟩, fun wrapped => by simp [countWhile]⟩
  | cons mark rest ih =>
      rcases h.front with hnil | ⟨c, rest', hcons⟩
      · cases hnil
      cases hcons
      by_cases hblank : Ascii.isBlank c = true
      · have hgoes : goesOn c = true := by simp [goesOn, isWhitespace_of_isBlank hblank]
        obtain ⟨n, ⟨text, behind, phase', rfl, rfl, hsettled, hphase⟩, hcount⟩ := ih (h.next hgoes)
        have hplain : phase = .plain false → phase.next c = .plain false := by
          rintro rfl
          simp only [Ascii.isBlank, Bool.or_eq_true, decide_eq_true_eq] at hblank
          rcases hblank with ((rfl | rfl) | rfl) | rfl <;> rfl
        exact ⟨text.length + 1, ⟨c :: text, behind, phase', rfl, rfl, hsettled, hphase ∘ hplain⟩,
          fun wrapped => by
            have hcount := hcount wrapped
            rw [countWhile] at hcount
            simpa [countWhile, hblank] using hcount⟩
      · exact ⟨0, ⟨[], _, phase, rfl, rfl, h, id⟩, fun wrapped => by simp [countWhile, hblank]⟩

theorem Settled.definitionSpace? {follow : Text → Option Nat}
    (hfollow : ∀ marked, Ready marked → Agrees follow marked) {phase : Phase} {marked : Marked}
    (h : Settled phase marked) :
    (∀ wrapped, Definition.space? follow (marked.side wrapped) =
      Definition.space? follow (marked.side false)) ∧
      ∀ n breaks, Definition.space? follow (marked.side false) = some (n, breaks) →
        SettledBehind phase n marked := by
  obtain ⟨blanks, hblanks, hcount⟩ := h.blanks
  obtain ⟨phase', hbehind⟩ := hblanks.settled
  have heol := hbehind.eol?
  simp only [Definition.space?, hcount, hblanks.drop_side, heol.side]
  cases hend : Source.eol? (Marked.side false (marked.drop blanks)) with
  | none => exact ⟨fun _ => rfl, fun n breaks hn => by cases hn; exact hblanks⟩
  | some ending =>
      have hending : Clear (blanks + ending) marked := by
        obtain ⟨text, rest, phase', rfl, rfl, -⟩ := hblanks
        obtain ⟨more, behind, rfl, hsplit, hready⟩ := heol.clear ending hend
        rw [Clear.drop_append] at hsplit
        exact ⟨text ++ more, behind, by simp, by rw [hsplit]; simp, hready⟩
      simp only [hending.drop_side]
      obtain ⟨hside, hclear⟩ := hfollow _ hending.ready
      simp only [hside]
      cases hskip : follow (Marked.side false (marked.drop (blanks + ending))) with
      | none => exact ⟨fun _ => rfl, fun n breaks hn => by cases hn⟩
      | some skipped =>
          have hnext := hending.add (hclear skipped hskip)
          obtain ⟨more, hmore, hcount'⟩ := hnext.ready.settled.blanks
          obtain ⟨phase'', hlast⟩ := hmore.settled
          have hall : SettledBehind phase _ marked := hnext.settledBehind hmore
          have hdrop : (marked.drop (blanks + ending + skipped)).drop more =
              marked.drop (blanks + ending + skipped + more) := by rw [List.drop_drop]
          rw [hdrop] at hlast
          simp only [Option.bind_some, hnext.drop_side, hcount', hall.drop_side,
            hlast.eol?.side]
          refine ⟨fun _ => trivial, fun n breaks hn => ?_⟩
          split at hn
          · cases hn
            exact hall
          · cases hn

/-! ## Titles -/

/-- What a reader with enough fuel takes for a title, and what is behind it, on both sides. -/
structure ReadsTitle (follow : Text → Option Nat) (close : Char) (marked : Marked)
    (found : Option (Marked × Marked)) : Prop where
  reaches : ∀ passed rest, found = some (passed, rest) →
    marked = passed ++ rest ∧ ∃ phase, Woven phase rest
  read : ∀ wrapped fuel kept length, (marked.side wrapped).length < fuel →
    (Definition.titleFrom? follow close fuel kept length (marked.side wrapped)).map Prod.snd =
      found.map fun (passed, _) => length + (Marked.side wrapped passed).length

theorem ReadsTitle.prepend {follow : Text → Option Nat} {close : Char} {marked first : Marked}
    {found : Option (Marked × Marked)} (h : ReadsTitle follow close marked found)
    (hstep : ∀ wrapped fuel kept length,
      (Marked.side wrapped (first ++ marked)).length < fuel + 1 →
        ∃ fuel' kept', (marked.side wrapped).length < fuel' ∧
          Definition.titleFrom? follow close (fuel + 1) kept length
              (Marked.side wrapped (first ++ marked)) =
            Definition.titleFrom? follow close fuel' kept'
              (length + (Marked.side wrapped first).length) (marked.side wrapped)) :
    ReadsTitle follow close (first ++ marked) (found.map fun (passed, rest) =>
      (first ++ passed, rest)) := by
  constructor
  case reaches =>
    intro passed rest heq
    obtain ⟨⟨passed', rest'⟩, hfound, heq⟩ := Option.map_eq_some_iff.mp heq
    cases heq
    obtain ⟨hsplit, hwoven⟩ := h.reaches passed' rest hfound
    exact ⟨by rw [hsplit, List.append_assoc], hwoven⟩
  case read =>
    intro wrapped fuel kept length hfuel
    cases fuel with
    | zero => exact absurd hfuel (Nat.not_lt_zero _)
    | succ fuel =>
        obtain ⟨fuel', kept', hfuel', hnext⟩ := hstep wrapped fuel kept length hfuel
        rw [hnext, h.read wrapped fuel' kept' _ hfuel', Option.map_map]
        congr 1
        funext ⟨passed, rest⟩
        simp [Nat.add_assoc]

def isIndent (c : Char) : Bool := decide (c = ' ') || decide (c = '\t')

theorem quiet_isIndent : Quiet isIndent := ⟨rfl, rfl, rfl⟩

theorem titleFrom?_newline {follow : Text → Option Nat} {close : Char} (hclose : close ≠ '\n')
    {fuel length : Nat} {kept text : Text} :
    Definition.titleFrom? follow close (fuel + 1) kept length ('\n' :: text) =
      (follow text).bind fun skipped =>
        Definition.titleFrom? follow close fuel ('\n' :: kept)
          (length + 1 + skipped + countWhile isIndent (text.drop skipped))
          ((text.drop skipped).drop (countWhile isIndent (text.drop skipped))) := by
  have hdrop (n : Nat) : ('\n' :: text).drop (1 + n) = text.drop n := by
    rw [Nat.add_comm, List.drop_succ_cons]
  simp only [Definition.titleFrom?, if_neg (Ne.symm hclose), Source.eol?, hdrop,
    List.drop_succ_cons, List.drop_zero]
  rw [if_neg (by simp)]
  rfl

theorem titleFrom?_cons {follow : Text → Option Nat} {close c : Char} (hend : c ≠ close)
    (hparen : ¬(c = '(' ∧ close = ')')) (hn : c ≠ '\n') (hcr : c ≠ '\r') {text : Text}
    (hback : c = '\\' → ∀ d more, text = d :: more → d = '\n')
    {fuel length : Nat} {kept : Text} :
    Definition.titleFrom? follow close (fuel + 1) kept length (c :: text) =
      Definition.titleFrom? follow close fuel (c :: kept) (length + 1) text := by
  by_cases hc : c = '\\'
  · subst hc
    cases text with
    | nil => simp [Definition.titleFrom?, hend, Source.eol?]
    | cons d more =>
        obtain rfl := hback rfl d more rfl
        simp [Definition.titleFrom?, hend, Source.eol?]
  · simp [Definition.titleFrom?, hend, hparen, eol?_cons hn hcr, hc]

theorem Woven.behind_backslash {phase : Phase} {d : Char} {rest : Marked}
    (h : Woven phase (('\\', false) :: (d, true) :: rest)) : False := by
  obtain ⟨-, hrest⟩ := (Woven.cons_false_iff _ _ _).mp h
  rcases hrest.cons_true with ⟨hgap, -⟩ | ⟨hinside, -⟩
  · exact Phase.next_backslash_ne_gap phase hgap
  · exact nomatch Phase.next_backslash_inside hinside

/-- No escape is on one side only. -/
theorem Woven.not_escape {phase : Phase} {c : Char} {rest : Marked} {p : Char → Prop}
    (h : Woven phase ((c, false) :: rest))
    (hno : ¬(c = '\\' ∧ ∃ d more, rest = (d, false) :: more ∧ p d)) (wrapped : Bool)
    (hc : c = '\\') (d : Char) (more : Text) (heq : Marked.side wrapped rest = d :: more) :
    ¬p d := by
  subst hc
  rcases rest with - | ⟨⟨d', inserted⟩, rest⟩
  · simp at heq
  cases inserted with
  | true => exact h.behind_backslash.elim
  | false =>
      simp only [Marked.side_cons_false, List.cons.injEq] at heq
      obtain ⟨rfl, -⟩ := heq
      exact fun hd => hno ⟨rfl, d', rest, rfl, hd⟩

theorem ReadsTitle.nil {follow : Text → Option Nat} {close : Char} :
    ReadsTitle follow close [] none :=
  ⟨by simp, fun wrapped fuel kept length hfuel => by cases fuel <;> simp [Definition.titleFrom?]⟩

theorem ReadsTitle.inserted {follow : Text → Option Nat} {close c : Char} {phase : Phase}
    {rest : Marked} {found : Option (Marked × Marked)} (h : ReadsTitle follow close rest found)
    (hwoven : Woven phase ((c, true) :: rest)) (hclose : close ≠ '<' ∧ close ≠ '>') :
    ∃ found, ReadsTitle follow close ((c, true) :: rest) found := by
  refine ⟨_, @ReadsTitle.prepend _ _ rest [(c, true)] _ h fun wrapped fuel kept length hfuel => ?_⟩
  cases wrapped with
  | false => exact ⟨fuel + 1, kept, by simpa using hfuel, by simp⟩
  | true =>
      refine ⟨fuel, c :: kept, by simpa using hfuel, ?_⟩
      rcases hwoven.angle with rfl | rfl <;>
        simp [Definition.titleFrom?, Source.eol?, Ne.symm hclose.1, Ne.symm hclose.2]

theorem ReadsTitle.close {follow : Text → Option Nat} {close : Char} {phase : Phase}
    {rest : Marked} (h : Woven phase rest) :
    ReadsTitle follow close ((close, false) :: rest) (some ([(close, false)], rest)) := by
  constructor
  case reaches =>
    rintro passed behind heq
    cases heq
    exact ⟨rfl, phase, h⟩
  case read =>
    intro wrapped fuel kept length hfuel
    cases fuel with
    | zero => exact absurd hfuel (Nat.not_lt_zero _)
    | succ fuel => simp [Definition.titleFrom?]

theorem ReadsTitle.parenthesis {follow : Text → Option Nat} {rest : Marked} :
    ReadsTitle follow ')' (('(', false) :: rest) none :=
  ⟨by simp, fun wrapped fuel kept length hfuel => by cases fuel <;> simp [Definition.titleFrom?]⟩

theorem ReadsTitle.newline {follow : Text → Option Nat} {close : Char} {rest : Marked}
    (hfollow : Agrees follow rest) (hclose : close ≠ '\n')
    (hread : ∀ behind, Ready behind → behind.length ≤ rest.length →
      ∃ found, ReadsTitle follow close behind found) :
    ∃ found, ReadsTitle follow close (('\n', false) :: rest) found := by
  obtain ⟨hside, hclear⟩ := hfollow
  cases hskip : follow (Marked.side false rest) with
  | none =>
      refine ⟨none, by simp, fun wrapped fuel kept length hfuel => ?_⟩
      cases fuel with
      | zero => rfl
      | succ fuel => simp [titleFrom?_newline hclose, hside wrapped, hskip]
  | some skipped =>
      have hskipped := hclear skipped hskip
      obtain ⟨indent, behind, hsplit, hready, -, hrun⟩ := hskipped.ready.run quiet_isIndent
      have hlength : behind.length ≤ rest.length := by
        have hdrop := congrArg List.length hsplit
        simp only [List.length_drop, List.length_append] at hdrop
        omega
      obtain ⟨later, hlater⟩ := hread behind hready hlength
      have hall : rest = (rest.take skipped ++ Marked.plain indent) ++ behind := by
        rw [List.append_assoc, ← hsplit, List.take_append_drop]
      have hwidth (wrapped : Bool) : (Marked.side wrapped
          (rest.take skipped ++ Marked.plain indent)).length = skipped + indent.length := by
        simp [hskipped.length_take]
      generalize rest.take skipped ++ Marked.plain indent = first at hall hwidth
      subst hall
      refine ⟨_, @ReadsTitle.prepend _ _ behind (('\n', false) :: first) _ hlater
        fun wrapped fuel kept length hfuel => ⟨fuel, '\n' :: kept, ?_, ?_⟩⟩
      · simp only [List.cons_append, Marked.side_cons_false, Marked.side_append,
          List.length_cons, List.length_append] at hfuel
        omega
      · rw [List.cons_append, Marked.side_cons_false, titleFrom?_newline hclose, hside wrapped,
          hskip, Option.bind_some, hskipped.drop_side, countWhile, (hrun wrapped).1,
          (hrun wrapped).2.1, Marked.side_cons_false, List.length_cons, hwidth]
        congr 1
        omega

theorem ReadsTitle.escape {follow : Text → Option Nat} {close d : Char} {more : Marked}
    {found : Option (Marked × Marked)} (h : ReadsTitle follow close more found)
    (hclose : '\\' ≠ close) (hd : d ≠ '\n') (hcr : d ≠ '\r') :
    ∃ found, ReadsTitle follow close (('\\', false) :: (d, false) :: more) found := by
  refine ⟨_, @ReadsTitle.prepend _ _ more [('\\', false), (d, false)] _ h
    fun wrapped fuel kept length hfuel => ⟨fuel, d :: '\\' :: kept, ?_, ?_⟩⟩
  · simp only [List.cons_append, List.nil_append, Marked.side_cons_false, List.length_cons] at hfuel
    omega
  · simp [Definition.titleFrom?, hclose, Source.eol?, hd, hcr]

theorem Woven.titleFrom? {follow : Text → Option Nat}
    (hfollow : ∀ marked, Ready marked → Agrees follow marked) {close : Char}
    (hclose : close ≠ '<' ∧ close ≠ '>') {n : Nat} {phase : Phase} {marked : Marked}
    (h : Woven phase marked) (hn : marked.length ≤ n) :
    ∃ found, ReadsTitle follow close marked found := by
  induction n generalizing phase marked with
  | zero =>
      obtain rfl := List.eq_nil_of_length_eq_zero (Nat.le_zero.mp hn)
      exact ⟨none, .nil⟩
  | succ n ih =>
  cases marked with
  | nil => exact ⟨none, .nil⟩
  | cons mark rest =>
  obtain ⟨c, inserted⟩ := mark
  have hlength : rest.length ≤ n := by simpa using hn
  have hcr := h.carriageReturn false
  obtain ⟨phase', hrest⟩ := h.tail
  obtain ⟨found, hfound⟩ := ih hrest hlength
  cases inserted with
  | true => exact hfound.inserted h hclose
  | false =>
  simp only [Marked.side_cons_false, List.mem_cons, not_or] at hcr
  by_cases hend : c = close
  · subst hend
    exact ⟨_, .close hrest⟩
  by_cases hparen : c = '(' ∧ close = ')'
  · obtain ⟨rfl, rfl⟩ := hparen
    exact ⟨none, .parenthesis⟩
  by_cases hnewline : c = '\n'
  · subst hnewline
    have hready : Ready rest := ((Woven.cons_false_iff _ _ _).mp h).2
    exact ReadsTitle.newline (hfollow rest hready) (Ne.symm hend) fun behind hbehind hshorter =>
      ih hbehind (hshorter.trans hlength)
  by_cases hback : c = '\\' ∧ ∃ d more, rest = (d, false) :: more ∧ d ≠ '\n'
  · obtain ⟨rfl, d, more, rfl, hd⟩ := hback
    obtain ⟨phase'', hmore⟩ := hrest.tail
    obtain ⟨found, hfound⟩ := ih hmore ((Nat.le_succ _).trans hlength)
    simp only [Marked.side_cons_false, List.mem_cons, not_or] at hcr
    exact hfound.escape hend hd (Ne.symm hcr.2.1)
  · refine ⟨_, @ReadsTitle.prepend _ _ rest [(c, false)] _ hfound
      fun wrapped fuel kept length hfuel => ⟨fuel, c :: kept, by simpa using hfuel, ?_⟩⟩
    have hno := h.not_escape hback wrapped
    simp only [List.cons_append, List.nil_append, Marked.side_cons_false]
    rw [titleFrom?_cons hend hparen hnewline (Ne.symm hcr.1) fun hc d more heq =>
      not_not.mp (hno hc d more heq)]
    simp

/-- A reader passes the same marked part on both sides, or fails on both. -/
structure InStep (good : Marked → Prop) (read : Text → Option Nat) (marked : Marked)
    (found : Option (Marked × Marked)) : Prop where
  reaches : ∀ passed rest, found = some (passed, rest) → marked = passed ++ rest ∧ good rest
  read : ∀ wrapped, read (marked.side wrapped) =
    found.map fun (passed, _) => (Marked.side wrapped passed).length

theorem InStep.prepend {good : Marked → Prop} {read read' : Text → Option Nat}
    {marked first : Marked} {found : Option (Marked × Marked)} (h : InStep good read' marked found)
    (hstep : ∀ wrapped, read (Marked.side wrapped (first ++ marked)) =
      (read' (marked.side wrapped)).map ((Marked.side wrapped first).length + ·)) :
    InStep good read (first ++ marked) (found.map fun (passed, rest) =>
      (first ++ passed, rest)) := by
  constructor
  case reaches =>
    intro passed rest heq
    obtain ⟨⟨passed', rest'⟩, hfound, heq⟩ := Option.map_eq_some_iff.mp heq
    cases heq
    obtain ⟨hsplit, hgood⟩ := h.reaches passed' rest hfound
    exact ⟨by rw [hsplit, List.append_assoc], hgood⟩
  case read =>
    intro wrapped
    rw [hstep, h.read, Option.map_map, Option.map_map]
    congr 1
    funext ⟨passed, rest⟩
    simp

def IsWoven (marked : Marked) : Prop := ∃ phase, Woven phase marked

def IsSettled (marked : Marked) : Prop := ∃ phase, Settled phase marked

theorem Settled.title? {follow : Text → Option Nat}
    (hfollow : ∀ marked, Ready marked → Agrees follow marked) {phase : Phase} {marked : Marked}
    (h : Settled phase marked) :
    ∃ found, InStep IsWoven (fun text => (Definition.title? follow text).map Prod.snd) marked
      found := by
  rcases h.front with rfl | ⟨c, rest, rfl⟩
  · exact ⟨none, by simp, fun wrapped => by simp [Definition.title?]⟩
  obtain ⟨-, hrest⟩ := (Woven.cons_false_iff _ _ _).mp h.woven
  have hquoted (close : Char) (hclose : close ≠ '<' ∧ close ≠ '>') :
      ∃ found, InStep IsWoven (fun text => (Definition.titleFrom? follow close
        ((text.drop 1).length + 1) [] 1 (text.drop 1)).map Prod.snd) ((c, false) :: rest)
        found := by
    obtain ⟨found, hreaches, hread⟩ := hrest.titleFrom? hfollow hclose (Nat.le_refl _)
    refine ⟨found.map fun (passed, behind) => ((c, false) :: passed, behind), ?_, fun wrapped => ?_⟩
    · intro passed behind heq
      obtain ⟨⟨passed', behind'⟩, hfound, heq⟩ := Option.map_eq_some_iff.mp heq
      cases heq
      obtain ⟨hsplit, hwoven⟩ := hreaches passed' behind hfound
      exact ⟨by rw [hsplit]; rfl, hwoven⟩
    · simp only [Marked.side_cons_false, List.drop_succ_cons, List.drop_zero]
      rw [hread wrapped _ [] 1 (Nat.lt_succ_self _), Option.map_map]
      congr 1
      funext ⟨passed, behind⟩
      simp [Nat.add_comm]
  by_cases hdouble : c = '"'
  · subst hdouble
    obtain ⟨found, hreaches, hread⟩ := hquoted '"' (by decide)
    exact ⟨found, hreaches, fun wrapped => by
      rw [← hread wrapped]
      simp [Definition.title?]⟩
  by_cases hsingle : c = '\''
  · subst hsingle
    obtain ⟨found, hreaches, hread⟩ := hquoted '\'' (by decide)
    exact ⟨found, hreaches, fun wrapped => by
      rw [← hread wrapped]
      simp [Definition.title?]⟩
  by_cases hparen : c = '('
  · subst hparen
    obtain ⟨found, hreaches, hread⟩ := hquoted ')' (by decide)
    exact ⟨found, hreaches, fun wrapped => by
      rw [← hread wrapped]
      simp [Definition.title?]⟩
  · exact ⟨none, by simp, fun wrapped => by
      simp [Definition.title?, hdouble, hsingle, hparen]⟩

/-! ## Destinations -/

def bareLength? (maxNesting nesting : Nat) (text : Text) : Option Nat :=
  (Destination.bare? maxNesting nesting text).map List.length

theorem InStep.stop {maxNesting nesting : Nat} {phase : Phase} {marked : Marked}
    (h : Woven phase marked) (hgap : phase = .gap → 1 ≤ nesting)
    (hfront : marked = [] ∨ ∃ c rest, marked = (c, false) :: rest)
    (hstop : ∀ wrapped, Destination.bare? maxNesting nesting (marked.side wrapped) =
      if nesting = 0 then some [] else none) :
    ∃ found, InStep IsSettled (bareLength? maxNesting nesting) marked found := by
  by_cases hnesting : nesting = 0
  · refine ⟨some ([], marked), ?_, fun wrapped => by
      simp [bareLength?, hstop wrapped, if_pos hnesting]⟩
    rintro passed rest heq
    cases heq
    exact ⟨rfl, phase, h, fun heq => by
      have := hgap heq
      omega, hfront⟩
  · exact ⟨none, by simp, fun wrapped => by simp [bareLength?, hstop, hnesting]⟩

theorem InStep.escape {good : Marked → Prop} {read : Text → Option Nat} {d : Char}
    {more : Marked} {found : Option (Marked × Marked)} (h : InStep good read more found)
    (hstep : ∀ text, read ('\\' :: d :: text) = (read text).map (2 + ·)) :
    ∃ found, InStep good read (('\\', false) :: (d, false) :: more) found :=
  ⟨_, @InStep.prepend _ _ _ more [('\\', false), (d, false)] _ h fun wrapped => by
    simp [hstep]⟩

theorem InStep.cons {good : Marked → Prop} {read read' : Text → Option Nat} {c : Char}
    {rest : Marked} {found : Option (Marked × Marked)} (h : InStep good read' rest found)
    (hstep : ∀ wrapped, read (c :: Marked.side wrapped rest) =
      (read' (Marked.side wrapped rest)).map (1 + ·)) :
    ∃ found, InStep good read ((c, false) :: rest) found :=
  ⟨_, @InStep.prepend _ _ _ rest [(c, false)] _ h fun wrapped => by simp [hstep]⟩

/-- A bare destination ends at a character, or goes on behind it, more deeply nested behind an
opening parenthesis and less so behind a closing one only. -/
theorem bare?_cons (maxNesting nesting : Nat) (c : Char) :
    (∀ text, Destination.bare? maxNesting nesting (c :: text) =
      if nesting = 0 then some [] else none) ∨
    ∃ nesting', (c = '(' → 1 ≤ nesting') ∧ (c ≠ ')' → nesting ≤ nesting') ∧
      ∀ text, (c = '\\' → ∀ d more, text = d :: more → ¬Ascii.isPunctuation d = true) →
        bareLength? maxNesting nesting (c :: text) =
          (bareLength? maxNesting nesting' text).map (1 + ·) := by
  by_cases hslash : c = '\\'
  · subst hslash
    refine .inr ⟨nesting, by simp, fun _ => Nat.le_refl _, fun text hno => ?_⟩
    cases text with
    | nil => simp [bareLength?, Destination.bare?, Nat.add_comm]
    | cons d more =>
        have hd := hno rfl d more rfl
        simp [bareLength?, Destination.bare?, hd, Function.comp_def, Nat.add_comm]
  by_cases hspace : c ≤ ' '
  · exact .inl fun text => by simp [Destination.bare?, hspace, hslash]
  by_cases hopen : c = '('
  · subst hopen
    by_cases hdeep : nesting > maxNesting
    · have hnesting : nesting ≠ 0 := Nat.ne_zero_of_lt hdeep
      exact .inl fun text => by simp [Destination.bare?, hdeep, hnesting]
    · exact .inr ⟨nesting + 1, fun _ => Nat.succ_pos _, fun _ => Nat.le_succ _, fun text _ => by
        simp [bareLength?, Destination.bare?, hdeep, Function.comp_def, Nat.add_comm]⟩
  by_cases hclose : c = ')'
  · subst hclose
    by_cases hnesting : nesting = 0
    · exact .inl fun text => by simp [Destination.bare?, hnesting]
    · exact .inr ⟨nesting - 1, by simp, by simp, fun text _ => by
        simp [bareLength?, Destination.bare?, hnesting, Function.comp_def, Nat.add_comm]⟩
  · exact .inr ⟨nesting, (absurd · hopen), fun _ => Nat.le_refl _, fun text _ => by
      simp [bareLength?, Destination.bare?, hspace, hopen, hclose, hslash, Function.comp_def,
        Nat.add_comm]⟩

theorem bareLength?_escape {maxNesting nesting : Nat} {d : Char}
    (hd : Ascii.isPunctuation d = true) (text : Text) :
    bareLength? maxNesting nesting ('\\' :: d :: text) =
      (bareLength? maxNesting nesting text).map (2 + ·) := by
  simp only [bareLength?, Destination.bare?, hd, if_true, Option.map_map]
  congr 1
  funext written
  simp only [Function.comp_apply, List.length_cons]
  omega

theorem InStep.inserted {maxNesting nesting : Nat} {c : Char} {phase : Phase} {rest : Marked}
    {found : Option (Marked × Marked)}
    (h : InStep IsSettled (bareLength? maxNesting nesting) rest found)
    (hwoven : Woven phase ((c, true) :: rest)) :
    ∃ found, InStep IsSettled (bareLength? maxNesting nesting) ((c, true) :: rest) found := by
  refine ⟨_, @InStep.prepend _ _ _ rest [(c, true)] _ h fun wrapped => ?_⟩
  cases wrapped with
  | false => simp
  | true =>
      rcases hwoven.angle with rfl | rfl <;>
        simp [bareLength?, Destination.bare?, Function.comp_def, Nat.add_comm]

/-- Only a parenthesis opens a gap, and it nests what follows it. -/
theorem Woven.bare? {maxNesting nesting n : Nat} {phase : Phase} {marked : Marked}
    (h : Woven phase marked) (hgap : phase = .gap → 1 ≤ nesting) (hn : marked.length ≤ n) :
    ∃ found, InStep IsSettled (bareLength? maxNesting nesting) marked found := by
  induction n generalizing phase marked nesting with
  | zero =>
      obtain rfl := List.eq_nil_of_length_eq_zero (Nat.le_zero.mp hn)
      exact InStep.stop h hgap (.inl rfl) fun wrapped => by simp [Destination.bare?]
  | succ n ih =>
  cases marked with
  | nil => exact InStep.stop h hgap (.inl rfl) fun wrapped => by simp [Destination.bare?]
  | cons mark rest =>
  obtain ⟨c, inserted⟩ := mark
  have hlength : rest.length ≤ n := by simpa using hn
  cases inserted with
  | true =>
      obtain ⟨phase', hrest, hgap'⟩ : ∃ phase', Woven phase' rest ∧ phase' ≠ .gap := by
        rcases h.cons_true with ⟨-, -, -, hrest⟩ | ⟨-, -, -, hrest⟩ <;>
          exact ⟨_, hrest, by simp⟩
      obtain ⟨found, hfound⟩ := ih hrest (absurd · hgap') hlength
      exact hfound.inserted h
  | false =>
  obtain ⟨-, hrest⟩ := (Woven.cons_false_iff _ _ _).mp h
  by_cases hback : c = '\\' ∧ ∃ d more, rest = (d, false) :: more ∧ Ascii.isPunctuation d = true
  · obtain ⟨rfl, d, more, rfl, hd⟩ := hback
    obtain ⟨-, hmore⟩ := (Woven.cons_false_iff _ _ _).mp hrest
    have hnext : (phase.next '\\').next d ≠ .gap := fun heq => by
      rcases Phase.next_gap heq with ⟨hbracket, -⟩ | ⟨hphase, -⟩
      · exact Phase.next_backslash_ne_bracket phase hbracket
      · exact Phase.next_backslash_ne_gap phase hphase
    obtain ⟨found, hfound⟩ := ih hmore (absurd · hnext) ((Nat.le_succ _).trans hlength)
    exact hfound.escape (bareLength?_escape hd)
  rcases bare?_cons maxNesting nesting c with hstop | ⟨nesting', hopen, hkeep, hstep⟩
  · exact InStep.stop h hgap (.inr ⟨c, rest, rfl⟩) fun wrapped => by
      rw [Marked.side_cons_false, hstop]
  · have hnext : phase.next c = .gap → 1 ≤ nesting' := fun heq => by
      rcases Phase.next_gap heq with ⟨-, hc⟩ | ⟨hphase, hspace⟩
      · exact hopen hc
      · exact (hgap hphase).trans (hkeep fun hc => by subst hc; cases hspace)
    obtain ⟨found, hfound⟩ := ih hrest hnext hlength
    exact hfound.cons fun wrapped => hstep _ (h.not_escape hback wrapped)

def bracketedLength? (text : Text) : Option Nat :=
  (Destination.bracketed? text).map Prod.snd

theorem bracketedLength?_escape {d : Char} (hd : Ascii.isPunctuation d = true) (text : Text) :
    bracketedLength? ('\\' :: d :: text) = (bracketedLength? text).map (2 + ·) := by
  simp [bracketedLength?, Destination.bracketed?, hd, Function.comp_def, Nat.add_comm]

theorem bracketedLength?_cons {c : Char} (hnewline : c ≠ '\n') (hcr : c ≠ '\r') (hopen : c ≠ '<')
    (hclose : c ≠ '>') {text : Text}
    (hno : c = '\\' → ∀ d more, text = d :: more → ¬Ascii.isPunctuation d = true) :
    bracketedLength? (c :: text) = (bracketedLength? text).map (1 + ·) := by
  by_cases hslash : c = '\\'
  · subst hslash
    cases text with
    | nil => simp [bracketedLength?, Destination.bracketed?]
    | cons d more =>
        have hd := hno rfl d more rfl
        simp [bracketedLength?, Destination.bracketed?, hd, Function.comp_def, Nat.add_comm]
  · simp [bracketedLength?, Destination.bracketed?, hnewline, hcr, hopen, hclose, hslash,
      Function.comp_def, Nat.add_comm]

/-- Brackets that are not marked hide the marks of their line. -/
theorem Woven.bracketed? {n : Nat} {marked : Marked} (h : Woven .closed marked)
    (hn : marked.length ≤ n) : ∃ found, InStep IsSettled bracketedLength? marked found := by
  induction n generalizing marked with
  | zero =>
      obtain rfl := List.eq_nil_of_length_eq_zero (Nat.le_zero.mp hn)
      exact ⟨none, by simp, fun wrapped => by simp [bracketedLength?, Destination.bracketed?]⟩
  | succ n ih =>
  rcases h.cases (by simp) (by simp) with rfl | ⟨c, rest, rfl, hcr, hrest⟩
  · exact ⟨none, by simp, fun wrapped => by simp [bracketedLength?, Destination.bracketed?]⟩
  have hlength : rest.length ≤ n := by simpa using hn
  by_cases hend : c = '\n' ∨ c = '<'
  · refine ⟨none, by simp, fun wrapped => ?_⟩
    rcases hend with rfl | rfl <;> simp [bracketedLength?, Destination.bracketed?]
  obtain ⟨hnewline, hopen⟩ := not_or.mp hend
  have hclosed : Woven .closed rest := by simpa [Phase.next, hnewline] using hrest
  by_cases hclose : c = '>'
  · subst hclose
    refine ⟨some ([('>', false)], rest), ?_, fun wrapped => ?_⟩
    · rintro passed behind heq
      cases heq
      exact ⟨rfl, .closed, hclosed, by simp, hclosed.front (by simp) (by simp)⟩
    · simp [bracketedLength?, Destination.bracketed?]
  by_cases hback : c = '\\' ∧ ∃ d more, rest = (d, false) :: more ∧ Ascii.isPunctuation d = true
  · obtain ⟨rfl, d, more, rfl, hd⟩ := hback
    obtain ⟨-, hmore⟩ := (Woven.cons_false_iff _ _ _).mp hclosed
    have hdnewline : d ≠ '\n' := by rintro rfl; cases hd
    have hmore : Woven .closed more := by simpa [Phase.next, hdnewline] using hmore
    obtain ⟨found, hfound⟩ := ih hmore ((Nat.le_succ _).trans hlength)
    exact hfound.escape (bracketedLength?_escape hd)
  · obtain ⟨found, hfound⟩ := ih hclosed hlength
    exact hfound.cons fun wrapped =>
      bracketedLength?_cons hnewline hcr hopen hclose (h.not_escape hback wrapped)

def destinationLength? (maxNesting : Nat) (text : Text) : Option Nat :=
  (Destination.scan? maxNesting text).map Prod.snd

theorem Ready.destination? {marked : Marked} (h : Ready marked) (maxNesting : Nat) :
    ∃ found, InStep IsSettled (destinationLength? maxNesting) marked found := by
  by_cases hfront : ∃ rest, marked = ('<', false) :: rest
  · obtain ⟨rest, rfl⟩ := hfront
    obtain ⟨-, hrest⟩ := (Woven.cons_false_iff _ _ _).mp h
    obtain ⟨found, hfound⟩ := @Woven.bracketed? _ rest hrest (Nat.le_refl _)
    refine ⟨_, @InStep.prepend _ _ _ rest [('<', false)] _ hfound fun wrapped => ?_⟩
    simp [destinationLength?, bracketedLength?, Destination.scan?, Function.comp_def, Nat.add_comm]
  · obtain ⟨found, hreaches, hread⟩ :=
      @Woven.bare? maxNesting 0 _ _ marked h (by simp) (Nat.le_refl _)
    refine ⟨found, hreaches, fun wrapped => ?_⟩
    rw [← hread wrapped]
    rcases h.cases with rfl | ⟨c, rest, rfl, -⟩
    · simp [destinationLength?, bareLength?, Destination.scan?, Function.comp_def]
    · have hc : c ≠ '<' := fun heq => hfront ⟨rest, by rw [heq]⟩
      simp [destinationLength?, bareLength?, Destination.scan?, hc, Function.comp_def]

def titleLength? (follow : Text → Option Nat) (text : Text) : Option Nat :=
  (Definition.title? follow text).map Prod.snd

def behindDestination? (follow : Text → Option Nat) (text : Text) : Option Nat :=
  match Definition.space? follow text with
  | none => some 0
  | some (between, breaks) =>
      if between = 0 then none
      else
        let otherwise := if breaks = 0 then none else some 0
        match titleLength? follow (text.drop between) with
        | none => otherwise
        | some length =>
            if Source.isBlankLine (text.drop (between + length)) then some (between + length)
            else otherwise

def targetLength? (follow : Text → Option Nat) (text : Text) : Option Nat :=
  (Definition.space? follow text).bind fun (before, _) =>
    (destinationLength? Definition.maxNesting (text.drop before)).bind fun size =>
      if size = 0 then none
      else (behindDestination? follow (text.drop (before + size))).map (before + size + ·)

theorem targetLength?_eq (follow : Text → Option Nat) (text : Text) :
    (Definition.target? follow text).map (·.2.2) = targetLength? follow text := by
  simp only [Definition.target?, targetLength?, destinationLength?]
  cases Definition.space? follow text with
  | none => rfl
  | some space =>
  obtain ⟨before, breaks⟩ := space
  cases hscan : Destination.scan? Definition.maxNesting (text.drop before) with
  | none => simp [hscan]
  | some found =>
  obtain ⟨written, size⟩ := found
  simp only [Option.bind_some, hscan, Option.map_some]
  by_cases hsize : size = 0
  · simp [hsize]
  simp only [if_neg hsize, behindDestination?, titleLength?]
  cases hspace : Definition.space? follow (text.drop (before + size)) with
  | none => rfl
  | some space =>
  obtain ⟨between, breaks⟩ := space
  cases between with
  | zero => rfl
  | succ between =>
  simp only [List.drop_drop, Nat.succ_ne_zero, if_false]
  cases htitle : Definition.title? follow (text.drop (before + size + (between + 1))) with
  | none => by_cases hbreaks : breaks = 0 <;> simp [hbreaks]
  | some title =>
  obtain ⟨title, length⟩ := title
  simp only [Option.map_some, Nat.add_assoc]
  split
  · rfl
  · by_cases hbreaks : breaks = 0 <;> simp [hbreaks]

theorem isBlankLine_of_space {follow : Text → Option Nat} {text : Text}
    (h : ∀ n, Definition.space? follow text ≠ some (n, 0)) : Source.isBlankLine text = true := by
  have hdrop : text.drop (countWhile Ascii.isBlank text) = text.dropWhile Ascii.isBlank :=
    Text.drop_length_takeWhile Ascii.isBlank text
  simp only [Definition.space?, hdrop] at h
  simp only [Source.isBlankLine, Source.blankLine?, Option.isSome_map]
  cases hend : Source.eol? (text.dropWhile Ascii.isBlank) with
  | none => simp [hend] at h
  | some n => rfl

def IsLineEnd (marked : Marked) : Prop :=
  IsWoven marked ∧ Source.isBlankLine (marked.side false) = true

theorem IsSettled.behindDestination? {follow : Text → Option Nat}
    (hfollow : ∀ marked, Ready marked → Agrees follow marked) {marked : Marked}
    (h : IsSettled marked) :
    ∃ found, InStep IsLineEnd (SpacedDestination.behindDestination? follow) marked found := by
  obtain ⟨phase, h⟩ := h
  obtain ⟨hside, hbehind⟩ := h.definitionSpace? hfollow
  have huntitled (hline : Source.isBlankLine (marked.side false) = true) :
      ∀ passed rest, some (([] : Marked), marked) = some (passed, rest) →
        marked = passed ++ rest ∧ IsLineEnd rest := by
    intro passed rest heq
    cases heq
    exact ⟨rfl, ⟨phase, h.woven⟩, hline⟩
  cases hspace : Definition.space? follow (marked.side false) with
  | none =>
      have hline := @isBlankLine_of_space follow (marked.side false) (by simp [hspace])
      exact ⟨some ([], marked), huntitled hline, fun wrapped => by
        simp [SpacedDestination.behindDestination?, hside wrapped, hspace]⟩
  | some space =>
  obtain ⟨between, breaks⟩ := space
  by_cases hbetween : between = 0
  · exact ⟨none, by simp, fun wrapped => by
      simp [SpacedDestination.behindDestination?, hside wrapped, hspace, hbetween]⟩
  have hnext := hbehind between breaks hspace
  obtain ⟨phase', hsettled⟩ := hnext.settled
  obtain ⟨found, hreaches, hread⟩ := hsettled.title? hfollow
  have hread (wrapped : Bool) : titleLength? follow (Marked.side wrapped (marked.drop between)) =
      found.map fun (passed, _) => (Marked.side wrapped passed).length := hread wrapped
  have hotherwise (hno : ∀ wrapped, SpacedDestination.behindDestination? follow
      (marked.side wrapped) = if breaks = 0 then none else some 0) :
      ∃ found, InStep IsLineEnd (SpacedDestination.behindDestination? follow) marked found := by
    by_cases hbreaks : breaks = 0
    · exact ⟨none, by simp, fun wrapped => by simp [hno wrapped, hbreaks]⟩
    · have hline := @isBlankLine_of_space follow (marked.side false) fun n hn => by
        rw [hspace] at hn
        cases hn
        exact hbreaks rfl
      exact ⟨some ([], marked), huntitled hline, fun wrapped => by
        simp [hno wrapped, if_neg hbreaks]⟩
  cases found with
  | none =>
      refine hotherwise fun wrapped => ?_
      simp [SpacedDestination.behindDestination?, hside wrapped, hspace, hbetween,
        hnext.drop_side, hread wrapped]
  | some found =>
      obtain ⟨passed, rest⟩ := found
      obtain ⟨hsplit, phase'', hwoven⟩ := hreaches passed rest rfl
      have hall : marked = (marked.take between ++ passed) ++ rest := by
        rw [List.append_assoc, ← hsplit, List.take_append_drop]
      have hlast (wrapped : Bool) : (marked.side wrapped).drop
          (between + (Marked.side wrapped passed).length) = rest.side wrapped := by
        rw [← List.drop_drop, hnext.drop_side, hsplit, Marked.side_append, List.drop_left]
      have hstep (wrapped : Bool) : SpacedDestination.behindDestination? follow
          (marked.side wrapped) =
          if Source.isBlankLine (rest.side false) then
            some (between + (Marked.side wrapped passed).length)
          else if breaks = 0 then none else some 0 := by
        simp only [SpacedDestination.behindDestination?, hside wrapped, hspace, if_neg hbetween,
          hnext.drop_side, hread wrapped, Option.map_some, hlast wrapped,
          hwoven.isBlankLine wrapped]
      by_cases hblank : Source.isBlankLine (rest.side false) = true
      · refine ⟨some (marked.take between ++ passed, rest), ?_, fun wrapped => ?_⟩
        · rintro first second heq
          cases heq
          exact ⟨hall, ⟨phase'', hwoven⟩, hblank⟩
        · simp [hstep, hblank, hnext.length_take]
      · exact hotherwise fun wrapped => by rw [hstep, if_neg hblank]

theorem Ready.targetLength? {follow : Text → Option Nat}
    (hfollow : ∀ marked, Ready marked → Agrees follow marked) {marked : Marked}
    (h : Ready marked) :
    ∃ found, InStep IsLineEnd (SpacedDestination.targetLength? follow) marked found := by
  obtain ⟨hside, hspaces⟩ := h.settled.definitionSpace? hfollow
  cases hspace : Definition.space? follow (marked.side false) with
  | none => exact ⟨none, by simp, fun wrapped => by
      simp [SpacedDestination.targetLength?, hside wrapped, hspace]⟩
  | some space =>
  obtain ⟨before, breaks⟩ := space
  have hbefore := hspaces before breaks hspace
  obtain ⟨found, hreaches, hread⟩ := hbefore.ready.destination? Definition.maxNesting
  have hstep (wrapped : Bool) : SpacedDestination.targetLength? follow (marked.side wrapped) =
      (destinationLength? Definition.maxNesting
        (Marked.side wrapped (marked.drop before))).bind fun size =>
          if size = 0 then none
          else (SpacedDestination.behindDestination? follow
            ((Marked.side wrapped (marked.drop before)).drop size)).map (before + size + ·) := by
    simp only [SpacedDestination.targetLength?, hside wrapped, hspace, Option.bind_some,
      hbefore.drop_side, ← List.drop_drop]
  cases found with
  | none => exact ⟨none, by simp, fun wrapped => by simp [hstep, hread wrapped]⟩
  | some found =>
      obtain ⟨passed, rest⟩ := found
      obtain ⟨hsplit, hsettled⟩ := hreaches passed rest rfl
      have hdrop (wrapped : Bool) : (Marked.side wrapped (marked.drop before)).drop
          (Marked.side wrapped passed).length = rest.side wrapped := by
        rw [hsplit, Marked.side_append, List.drop_left]
      have hempty (wrapped : Bool) : (Marked.side wrapped passed).length = 0 ↔ passed = [] := by
        rcases passed with - | ⟨⟨c, inserted⟩, passed⟩
        · simp
        · rcases hbefore.ready.cases with hnil | ⟨c', rest', hcons, -⟩
          · simp [hnil] at hsplit
          · rw [hcons] at hsplit
            cases hsplit
            simp
      obtain ⟨found, hfound⟩ := hsettled.behindDestination? hfollow
      by_cases hnone : passed = []
      · exact ⟨none, by simp, fun wrapped => by simp [hstep, hread wrapped, hnone]⟩
      · have hall : marked = (marked.take before ++ passed) ++ rest := by
          rw [List.append_assoc, ← hsplit, List.take_append_drop]
        have hwidth (wrapped : Bool) : (Marked.side wrapped (marked.take before ++ passed)).length =
            before + (Marked.side wrapped passed).length := by
          rw [Marked.side_append, List.length_append, hbefore.length_take]
        generalize marked.take before ++ passed = first at hall hwidth
        subst hall
        refine ⟨_, hfound.prepend fun wrapped => ?_⟩
        rw [hstep, hread wrapped, Option.map_some, Option.bind_some,
          if_neg (mt (hempty wrapped).mp hnone), hdrop, hwidth]

/-! ## Definitions -/

theorem IsLineEnd.blankLine? {marked : Marked} (h : IsLineEnd marked) :
    ∃ n, Clear n marked ∧ ∀ wrapped, Source.blankLine? (marked.side wrapped) = some n := by
  obtain ⟨⟨phase, hwoven⟩, hblank⟩ := h
  induction marked generalizing phase with
  | nil => exact ⟨0, Clear.zero Ready.nil, fun wrapped => by rw [Marked.side_nil]; rfl⟩
  | cons mark rest ih =>
      obtain ⟨c, inserted⟩ := mark
      obtain ⟨phase', hrest⟩ := hwoven.tail
      cases inserted with
      | true =>
          have hside := (hwoven.isBlankLine true).trans hblank
          rw [Marked.side_cons_wrapped] at hside
          rcases hwoven.angle with rfl | rfl <;>
            simp [isBlankLine_cons, Ascii.isBlank] at hside
      | false =>
          have hcr : c ≠ '\r' := by
            rintro rfl
            exact hwoven.carriageReturn false (by simp)
          rw [Marked.side_cons_false, isBlankLine_cons hcr] at hblank
          by_cases hn : c = '\n'
          · subst hn
            have hready : Ready rest := ((Woven.cons_false_iff _ _ _).mp hwoven).2
            exact ⟨1, (Clear.zero hready).cons, fun wrapped => by rw [Marked.side_cons_false]; rfl⟩
          · simp only [hn, decide_false, Bool.false_or, Bool.and_eq_true] at hblank
            obtain ⟨n, hclear, hside⟩ := ih hblank.2 phase' hrest
            refine ⟨n + 1, hclear.cons, fun wrapped => ?_⟩
            have hside := hside wrapped
            simp only [Source.blankLine?, Option.map_eq_some_iff] at hside
            obtain ⟨k, hk, rfl⟩ := hside
            simp [Source.blankLine?, hblank.1, hk, countWhile, Nat.add_assoc]

def definitionLength? (extensions : Extensions) (containers : List Container) (position : Nat)
    (text : Text) : Option Nat :=
  (Definition.scan? extensions containers position text).map Prod.snd

theorem definitionLength?_cons (position : Nat) (text : Text) :
    definitionLength? extensions containers position ('[' :: text) =
      (Label.scan? (Definition.follow? extensions containers) text).bind fun (_, n) =>
        match text.drop n with
        | ':' :: tail => (targetLength? (Definition.follow? extensions containers) tail).map
            (1 + n + 1 + ·)
        | _ => none := by
  simp only [definitionLength?, Definition.scan?, Option.map_bind]
  congr 1
  funext found
  obtain ⟨label, n⟩ := found
  simp only [Function.comp_apply]
  cases text.drop n with
  | nil => rfl
  | cons c tail =>
      by_cases hc : c = ':'
      · subst hc
        simp only [← targetLength?_eq, Option.map_map]
        rfl
      · simp [hc]

/-- A definition has the same lines on both sides, though not always the same characters. -/
theorem Ready.definitionLength? {marked : Marked} (h : Ready marked) :
    ∃ found, ∀ position, InStep IsLineEnd
      (SpacedDestination.definitionLength? extensions containers position) marked found := by
  by_cases hfront : ∃ rest, marked = ('[', false) :: rest
  swap
  · refine ⟨none, fun position => ⟨by simp, fun wrapped => ?_⟩⟩
    rcases h.cases with rfl | ⟨c, rest, rfl, -⟩
    · simp [SpacedDestination.definitionLength?, Definition.scan?]
    · have hc : c ≠ '[' := fun heq => hfront ⟨rest, by rw [heq]⟩
      simp [SpacedDestination.definitionLength?, Definition.scan?, hc]
  obtain ⟨rest, rfl⟩ := hfront
  have hready := h.tail (by decide) (by decide)
  have hfollow (marked : Marked) (h : Ready marked) :
      Agrees (Definition.follow? extensions containers) marked := h.follow?
  obtain ⟨hside, hcloses⟩ := hready.labelScan hfollow
  cases hlabel : Label.scan? (Definition.follow? extensions containers) (Marked.side false rest)
    with
  | none => exact ⟨none, fun position => ⟨by simp, fun wrapped => by
      simp [definitionLength?_cons, hside wrapped, hlabel]⟩⟩
  | some found =>
      obtain ⟨label, n⟩ := found
      rcases (hcloses label n hlabel).colon with hno | ⟨hclear, hcolon⟩
      · refine ⟨none, fun position => ⟨by simp, fun wrapped => ?_⟩⟩
        rw [Marked.side_cons_false, definitionLength?_cons, hside wrapped, hlabel,
          Option.bind_some]
        simp only
        split
        · next heq => exact absurd heq (hno wrapped _)
        · rfl
      · obtain ⟨found, hfound⟩ := hclear.ready.targetLength? hfollow
        have hall : ('[', false) :: rest =
            (('[', false) :: rest.take (n + 1)) ++ rest.drop (n + 1) := by
          rw [List.cons_append, List.take_append_drop]
        have hwidth (wrapped : Bool) :
            (Marked.side wrapped (('[', false) :: rest.take (n + 1))).length = 1 + n + 1 := by
          rw [Marked.side_cons_false, List.length_cons, hclear.length_take]
          omega
        rw [hall]
        refine ⟨_, fun position => hfound.prepend fun wrapped => ?_⟩
        rw [← hall, Marked.side_cons_false, definitionLength?_cons, hside wrapped, hlabel,
          Option.bind_some, hwidth]
        simp only [hcolon wrapped]

end Canonmark.SpacedDestination
