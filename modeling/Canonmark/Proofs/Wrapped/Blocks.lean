import Canonmark.Proofs.Source.Alike
import Canonmark.Proofs.Wrapped.Leaves

/-!
# Blocks on two sides

Two readers, one with the marks in its text and one without them, open and close the same
containers and find the same leaves, as long as no bracket opens in literal text.
-/

namespace Canonmark.SpacedDestination

open Source BlockReader

variable {marks : List Nat} {marked : Marked} {lenient strict : BlockReader}

/-- Both readers stand at the same place of a marked text, each on its side. -/
structure Paired (marks : List Nat) (marked : Marked) (lenient strict : BlockReader) : Prop where
  alike : Alike lenient strict
  placed : Placed marks strict.position marked
  lenientRest : lenient.rest = marked.side true
  strictRest : strict.rest = marked.side false

theorem Paired.stay (h : Paired marks marked lenient strict) {lenient' strict' : BlockReader}
    (halike : Alike lenient' strict') (hlenient : Stays lenient lenient')
    (hstrict : Stays strict strict') : Paired marks marked lenient' strict' where
  alike := halike
  placed := hstrict.position ▸ h.placed
  lenientRest := hlenient.rest.trans h.lenientRest
  strictRest := hstrict.rest.trans h.strictRest

theorem Paired.append (h : Paired marks marked lenient strict) (tree tree' : BlockTree)
    (htree : ∀ inFootnote, (tree.literals inFootnote).map Literal.content =
      (tree'.literals inFootnote).map Literal.content) :
    Paired marks marked (lenient.append tree) (strict.append tree') :=
  h.stay (h.alike.append htree) (stays_append tree lenient) (stays_append tree' strict)

theorem Paired.advance (h : Paired marks marked lenient strict) {passed rest : Marked}
    (hpasses : Passes marked passed rest) :
    Paired marks rest (lenient.advance (passed.side true).length)
      (strict.advance (passed.side false).length) := by
  have hdrop (wrapped : Bool) : (marked.side wrapped).drop (passed.side wrapped).length =
      rest.side wrapped := by
    rw [hpasses.split, Marked.side_append, List.drop_left]
  exact ⟨h.alike.advance _ _, h.placed.passes hpasses,
    (congrArg (List.drop _) h.lenientRest).trans (hdrop true),
    (congrArg (List.drop _) h.strictRest).trans (hdrop false)⟩

theorem Paired.advance_clear (h : Paired marks marked lenient strict) {n : Nat}
    (hclear : Clear n marked) :
    Paired marks (marked.drop n) (lenient.advance n) (strict.advance n) := by
  have hadvance := h.advance hclear.passes
  rwa [hclear.length_take, hclear.length_take] at hadvance

theorem Paired.emptyItem (h : Paired marks marked lenient strict) (stop stop' : Nat) :
    Paired marks marked { lenient with emptyItem := some stop }
      { strict with emptyItem := some stop' } where
  alike := { h.alike with emptyItem := rfl }
  placed := h.placed
  lenientRest := h.lenientRest
  strictRest := h.strictRest

theorem Paired.task (h : Paired marks marked lenient strict) (token token' : Token) :
    Paired marks marked { lenient with task := some token }
      { strict with task := some token' } where
  alike := { h.alike with task := rfl }
  placed := h.placed
  lenientRest := h.lenientRest
  strictRest := h.strictRest

theorem Head.Leads.from_start {head : Head} (h : (Head.start marked).Leads head) :
    Clear head.taken marked ∧ head.rest = marked.drop head.taken := by
  obtain ⟨n, hclear, hrest, htaken⟩ := h
  obtain rfl : head.taken = n := by simpa [Head.start] using htaken
  exact ⟨hclear, hrest⟩

theorem Head.Leads.clear_add {head : Head} {n : Nat} (h : (Head.start marked).Leads head)
    (hclear : Clear n head.rest) :
    Clear (head.taken + n) marked ∧ head.rest.drop n = marked.drop (head.taken + n) := by
  obtain ⟨hstart, hrest⟩ := h.from_start
  rw [hrest] at hclear ⊢
  exact ⟨hstart.add hclear, List.drop_drop⟩

theorem Head.Leads.length_side {first second : Head} (h : first.Leads second) (wrapped : Bool) :
    (Marked.side wrapped second.rest).length + second.taken =
      (Marked.side wrapped first.rest).length + first.taken := by
  obtain ⟨n, hclear, hrest, htaken⟩ := h
  have hle := hclear.le_length wrapped
  rw [hrest, hclear.length_drop, htaken]
  omega

theorem Head.Advances.length_side {first second : Head} (h : first.Advances second)
    (wrapped : Bool) :
    (Marked.side wrapped second.rest).length < (Marked.side wrapped first.rest).length := by
  have hlength := h.toLeads.length_side wrapped
  have hfurther := h.further
  omega

theorem eq_nil_of_blankLine? {text : Text} (h : Source.blankLine? text = some 0) : text = [] := by
  rcases text with - | ⟨c, rest⟩
  · rfl
  simp only [Source.blankLine?, Option.map_eq_some_iff, Nat.add_eq_zero_iff] at h
  obtain ⟨k, heol, rfl, hblanks⟩ := h
  have hc : Ascii.isBlank c = false := by
    cases hc : Ascii.isBlank c with
    | false => rfl
    | true => simp [countWhile, hc] at hblanks
  rw [List.dropWhile_cons, if_neg (by simp [hc])] at heol
  unfold Source.eol? at heol
  split at heol <;> simp_all

theorem Ready.eq_nil {marked : Marked} (h : Ready marked) (hnil : marked.side false = []) :
    marked = [] := by
  rcases h.cases with rfl | ⟨c, rest, rfl, -⟩
  · rfl
  · simp at hnil

theorem Head.Leads.blankLine {head : Head} {n : Nat} (h : (Head.start marked).Leads head)
    (hnil : marked ≠ []) (hn : Source.blankLine? (Marked.side false head.rest) = some n) :
    Clear (head.taken + n) marked ∧ (marked.drop (head.taken + n)).length < marked.length := by
  obtain ⟨hclear, -⟩ := h.clear_add (h.ready.blankLine?.clear n hn)
  refine ⟨hclear, ?_⟩
  by_cases hzero : head.taken + n = 0
  · obtain ⟨htaken, rfl⟩ := Nat.add_eq_zero_iff.mp hzero
    obtain ⟨-, hrest⟩ := h.from_start
    rw [htaken, List.drop_zero] at hrest
    rw [hrest] at hn
    have hready : Ready marked := hrest ▸ h.ready
    exact absurd (hready.eq_nil (eq_nil_of_blankLine? hn)) hnil
  · have hpos := List.length_pos_iff.mpr hnil
    rw [List.length_drop]
    omega

/-! ## Opening containers -/

/-- The results of opening containers: readers at the same place, and heads on the line there. -/
structure PairedHeads (marks : List Nat) (rest : Marked) (head? : Option Head)
    (lenient strict : BlockReader × Option LineHead) : Prop where
  paired : Paired marks rest lenient.1 strict.1
  lenientHead : lenient.2 = head?.map (Head.side true)
  strictHead : strict.2 = head?.map (Head.side false)

theorem PairedHeads.readers {rest : Marked} {head? : Option Head}
    {lenient strict : BlockReader × Option LineHead}
    (h : PairedHeads marks rest head? lenient strict) :
    ∃ lenient' strict', lenient = (lenient', head?.map (Head.side true)) ∧
      strict = (strict', head?.map (Head.side false)) ∧ Paired marks rest lenient' strict' :=
  ⟨_, _, Prod.ext rfl h.lenientHead, Prod.ext rfl h.strictHead, h.paired⟩

theorem Ready.footnoteFront {wrapped : Bool} {rest : Text} (h : Ready marked)
    (hside : marked.side wrapped = '[' :: '^' :: rest) :
    ∃ behind, marked = ('[', false) :: ('^', false) :: behind := by
  rcases h.cases with rfl | ⟨c, behind, rfl, -⟩
  · simp at hside
  rw [Marked.side_cons_false] at hside
  obtain ⟨rfl, hbehind⟩ := List.cons.inj hside
  rcases (h.tail (by decide) (by decide)).cases with rfl | ⟨d, more, rfl, -⟩
  · simp at hbehind
  rw [Marked.side_cons_false] at hbehind
  obtain ⟨rfl, -⟩ := List.cons.inj hbehind
  exact ⟨more, rfl⟩

theorem Paired.footnote? (h : Paired marks marked lenient strict) {head : Head}
    (hhead : (Head.start marked).Leads head) :
    (BlockReader.footnote? (head.side true) lenient = none ∧
      BlockReader.footnote? (head.side false) strict = none) ∨
      ∃ n lenient' strict', Clear n head.rest ∧ 0 < n ∧
        BlockReader.footnote? (head.side true) lenient = some lenient' ∧
          BlockReader.footnote? (head.side false) strict = some strict' ∧
            Paired marks (head.rest.drop n) lenient' strict' := by
  have hextensions := h.alike.extensions
  have hrest (wrapped : Bool) : (head.side wrapped).rest = Marked.side wrapped head.rest := rfl
  by_cases hstart : strict.extensions.footnotes = true ∧
      ∃ rest, head.rest = ('[', false) :: ('^', false) :: rest
  swap
  · have hnone (wrapped : Bool) (hfootnotes : strict.extensions.footnotes = true) (rest : Text) :
        (head.side wrapped).rest ≠ '[' :: '^' :: rest := fun heq =>
      hstart ⟨hfootnotes, hhead.ready.footnoteFront ((hrest wrapped).symm.trans heq)⟩
    exact .inl ⟨footnote?_eq_none _ lenient fun hfootnotes rest =>
      hnone true (hextensions ▸ hfootnotes) rest,
      footnote?_eq_none _ strict fun hfootnotes rest => hnone false hfootnotes rest⟩
  obtain ⟨hfootnotes, rest, hfront⟩ := hstart
  have hready : Ready rest := by
    have hready := hhead.ready
    rw [hfront] at hready
    exact (hready.tail (by decide) (by decide)).tail (by decide) (by decide)
  obtain ⟨hlabel, hclear⟩ := hready.footnoteLabel?
  have hfront' (wrapped : Bool) :
      (head.side wrapped).rest = '[' :: '^' :: Marked.side wrapped rest := by
    rw [hrest, hfront, Marked.side_cons_false, Marked.side_cons_false]
  have hlenient := footnote?_eq (head.side true) lenient _ (hfront' true) (hextensions ▸ hfootnotes)
  have hstrict := footnote?_eq (head.side false) strict _ (hfront' false) hfootnotes
  rw [hlabel true] at hlenient
  cases hfound : Source.footnoteLabel? (Marked.side false rest) with
  | none =>
      rw [hfound] at hlenient hstrict
      exact .inl ⟨hlenient, hstrict⟩
  | some found =>
      obtain ⟨label, n⟩ := found
      have hn := hclear label n hfound
      have hblanks := hn.ready.clear_countWhile quiet_isBlank
      have hwhole : Clear (n + countWhile Ascii.isBlank (Marked.side false (rest.drop n)) + 1 + 1)
          head.rest := by
        rw [hfront]
        exact (hn.add hblanks).cons.cons
      obtain ⟨hall, hdrop⟩ := hhead.clear_add hwhole
      have hlength (wrapped : Bool) : (head.side wrapped).taken + 2 + n +
          countWhile Ascii.isBlank ((Marked.side wrapped rest).drop n) =
            head.taken +
              (n + countWhile Ascii.isBlank (Marked.side false (rest.drop n)) + 1 + 1) := by
        rw [hn.drop_side, hn.ready.countWhile_side quiet_isBlank wrapped]
        simp only [Head.side]
        omega
      rw [hfound, Option.map_some] at hlenient hstrict
      simp only [hlength] at hlenient hstrict
      refine .inr ⟨_, _, _, hwhole, Nat.succ_pos _, hlenient, hstrict, ?_⟩
      rw [hdrop]
      exact (h.advance_clear hall).stay (h.alike.openFootnote _ _ _ _ _)
        (stays_openFootnote _ _ _ _) (stays_openFootnote _ _ _ _)

theorem Paired.openItem (h : Paired marks marked lenient strict) (hnil : marked ≠ []) {next : Head}
    (hnext : (Head.start marked).Leads next) (indent : Nat) (inner : Head) (marker : ItemMarker) :
    (∃ n, Clear n marked ∧ (marked.drop n).length < marked.length ∧
      PairedHeads marks (marked.drop n) none
        (BlockReader.openItem indent (inner.side true) marker (next.side true) lenient)
        (BlockReader.openItem indent (inner.side false) marker (next.side false) strict)) ∨
      ∃ head, next.Leads head ∧ PairedHeads marks marked (some head)
        (BlockReader.openItem indent (inner.side true) marker (next.side true) lenient)
        (BlockReader.openItem indent (inner.side false) marker (next.side false) strict) := by
  have hrest (head : Head) (wrapped : Bool) :
      (head.side wrapped).rest = Marked.side wrapped head.rest := rfl
  obtain ⟨openedLenient, hlenient⟩ : ∃ opened, opened =
      (lenient.continueList (lenient.position + (inner.side true).taken - indent) marker.marker
        marker.number).push (.item marker.indent)
          (lenient.position + (inner.side true).taken - indent) := ⟨_, rfl⟩
  obtain ⟨openedStrict, hstrict⟩ : ∃ opened, opened =
      (strict.continueList (strict.position + (inner.side false).taken - indent) marker.marker
        marker.number).push (.item marker.indent)
          (strict.position + (inner.side false).taken - indent) := ⟨_, rfl⟩
  have hopened : Paired marks marked openedLenient openedStrict := by
    rw [hlenient, hstrict]
    exact h.stay ((h.alike.continueList _ _ _ _).push _ _ _)
      ((stays_continueList _ _ _ _).trans (stays_push _ _ _))
      ((stays_continueList _ _ _ _).trans (stays_push _ _ _))
  have hextensions := h.alike.extensions
  have hblank := hnext.ready.blankLine?.side true
  unfold BlockReader.openItem
  simp only [← hlenient, ← hstrict, hrest, hblank]
  cases hline : Source.blankLine? (Marked.side false next.rest) with
  | some n =>
      obtain ⟨hclear, hshorter⟩ := hnext.blankLine hnil hline
      exact .inl ⟨_, hclear, hshorter, (hopened.advance_clear hclear).emptyItem _ _, rfl, rfl⟩
  | none =>
      obtain ⟨found, hleads, hside⟩ := Head.taskMarker? hnext.ready
      simp only [hside, hextensions]
      cases htask : (if strict.extensions.tasklists then found else none) with
      | none =>
          refine .inr ⟨next, Head.Leads.refl hnext.ready, ?_⟩
          by_cases htasks : strict.extensions.tasklists = true
          · rw [if_pos htasks] at htask
            simp only [htasks, if_true, htask, Option.map_none]
            exact ⟨hopened, rfl, rfl⟩
          · simp only [htasks]
            exact ⟨hopened, rfl, rfl⟩
      | some task =>
          obtain ⟨checked, boxed⟩ := task
          obtain ⟨htasks, rfl⟩ := Option.ite_none_right_eq_some.mp htask
          have hboxed := hleads checked boxed rfl
          have hblank := hboxed.ready.blankLine?.side true
          simp only [htasks, if_true, Option.map_some, hrest, hblank]
          cases hline : Source.blankLine? (Marked.side false boxed.rest) with
          | some n =>
              obtain ⟨hclear, hshorter⟩ := (hnext.trans hboxed).blankLine hnil hline
              have hmarked := hopened.append (.leaf (.task checked)
                (.upTo (lenient.position + (next.side true).taken)
                  (lenient.position + (boxed.side true).taken))) (.leaf (.task checked)
                (.upTo (strict.position + (next.side false).taken)
                  (strict.position + (boxed.side false).taken)))
                fun inFootnote => rfl
              exact .inl ⟨_, hclear, hshorter, (hmarked.advance_clear hclear).emptyItem _ _, rfl,
                rfl⟩
          | none => exact .inr ⟨boxed, hboxed, hopened.task _ _, rfl, rfl⟩

theorem Head.Advances.ne_nil {first second : Head} (h : first.Advances second)
    (hfirst : (Head.start marked).Leads first) : marked ≠ [] := by
  rintro rfl
  have hlength := hfirst.length_side false
  have hless := h.length_side false
  simp only [Head.start, Marked.side_nil, List.length_nil] at hlength
  omega

def Opens (marked rest : Marked) (head? : Option Head) : Prop :=
  (∃ n, Clear n marked ∧ rest = marked.drop n) ∧ (head? = none → rest.length < marked.length) ∧
    ∀ next ∈ head?, (Head.start rest).Leads next

theorem Opens.behind {rest last : Marked} {head? : Option Head}
    (hclear : ∃ n, Clear n marked ∧ rest = marked.drop n) (h : Opens rest last head?) :
    Opens marked last head? := by
  obtain ⟨n, hclear, rfl⟩ := hclear
  obtain ⟨⟨k, hk, rfl⟩, hshorter, hleads⟩ := h
  refine ⟨⟨n + k, hclear.add hk, List.drop_drop⟩, fun hnone => ?_, hleads⟩
  have hless := hshorter hnone
  simp only [List.length_drop] at hless ⊢
  omega

structure GoesOn (marks : List Nat) (marked : Marked) (head : Head) (rest : Marked) (next : Head)
    (lenient strict : BlockReader) : Prop where
  clear : ∃ n, Clear n marked ∧ rest = marked.drop n
  paired : Paired marks rest lenient strict
  leads : (Head.start rest).Leads next
  shorter : ∀ wrapped,
    (Marked.side wrapped next.rest).length < (Marked.side wrapped head.rest).length

section

variable {head inner : Head}

theorem GoesOn.of_advances (hhead : (Head.start marked).Leads head) (hinner : head.Leads inner)
    {next : Head} (hnext : inner.Advances next) (hpaired : Paired marks marked lenient strict) :
    GoesOn marks marked head marked next lenient strict := by
  have hlead := hhead.trans hinner
  refine ⟨⟨0, Clear.zero hpaired.placed.ready, rfl⟩, hpaired, hlead.trans hnext.toLeads,
    fun wrapped => ?_⟩
  have hlength := hnext.length_side wrapped
  have hinnerLength := hinner.length_side wrapped
  have hinnerTaken := hinner.taken_le
  omega

theorem GoesOn.of_clear (hhead : (Head.start marked).Leads head) (hinner : head.Leads inner)
    {n : Nat} (hclear : Clear n inner.rest) (hpos : 0 < n)
    (hpaired : Paired marks (inner.rest.drop n) lenient strict) :
    GoesOn marks marked head (inner.rest.drop n) (Head.start (inner.rest.drop n)) lenient
      strict := by
  obtain ⟨hall, hdrop⟩ := (hhead.trans hinner).clear_add hclear
  refine ⟨⟨_, hall, hdrop⟩, hpaired, Head.Leads.refl hclear.ready, fun wrapped => ?_⟩
  have hlength := hclear.length_drop wrapped
  have hle := hclear.le_length wrapped
  have hinnerLength := hinner.length_side wrapped
  have hinnerTaken := hinner.taken_le
  simp only [Head.start]
  omega

/-- One round of opening containers ends in the same place on both sides, or goes on with a
container open on both. -/
def OpensOnce (marks : List Nat) (marked : Marked) (head : Head) (lenient strict : BlockReader) :
    Prop :=
  (∃ rest head?, Opens marked rest head? ∧ ∀ fuel fuel', PairedHeads marks rest head?
    (BlockReader.openContainers (fuel + 1) (head.side true) lenient)
    (BlockReader.openContainers (fuel' + 1) (head.side false) strict)) ∨
  ∃ rest next lenient' strict', GoesOn marks marked head rest next lenient' strict' ∧
    (∀ fuel, BlockReader.openContainers (fuel + 1) (head.side true) lenient =
      BlockReader.openContainers fuel (next.side true) lenient') ∧
    ∀ fuel, BlockReader.openContainers (fuel + 1) (head.side false) strict =
      BlockReader.openContainers fuel (next.side false) strict'

theorem Paired.opens (h : Paired marks marked lenient strict)
    (hhead : (Head.start marked).Leads head) : Opens marked marked (some head) :=
  ⟨⟨0, Clear.zero h.placed.ready, rfl⟩, by simp, by simpa using hhead⟩

/-- A list item is opened on both sides, and its line goes on unless it is empty or a check box
follows the marker. -/
theorem Paired.opensItem (h : Paired marks marked lenient strict)
    (hhead : (Head.start marked).Leads head) (hinner : head.Leads inner) {indent : Nat}
    (hindent : ∀ wrapped, (head.side wrapped).takeUpTo 4 = (indent, inner.side wrapped))
    (hfew : ¬4 ≤ indent)
    (hnone : ∀ wrapped, BlockReader.footnote? (inner.side wrapped)
      (if wrapped then lenient else strict) = none)
    {marker : ItemMarker} {next : Head} (hnext : inner.Advances next)
    (hmarker : ∀ wrapped, (inner.side wrapped).itemMarker? indent =
      some (marker, next.side wrapped)) :
    OpensOnce marks marked head lenient strict := by
  have hlead := hhead.trans hinner
  have hlenientNone : BlockReader.footnote? (inner.side true) lenient = none := hnone true
  have hstrictNone : BlockReader.footnote? (inner.side false) strict = none := hnone false
  rcases h.openItem (hnext.ne_nil hlead) (hlead.trans hnext.toLeads) indent inner marker with
    ⟨k, hclear, hshorter, hopened⟩ | ⟨content, hcontent, hopened⟩
  · refine .inl ⟨marked.drop k, none, ⟨⟨k, hclear, rfl⟩, fun _ => hshorter, by simp⟩,
      fun fuel fuel' => ?_⟩
    obtain ⟨lenient', strict', hlenient, hstrict, hpaired⟩ := hopened.readers
    simp only [BlockReader.openContainers, hindent, hfew, hlenientNone, hstrictNone, hmarker,
      hlenient, hstrict, Option.map_none]
    exact ⟨hpaired, rfl, rfl⟩
  · obtain ⟨lenient', strict', hlenient, hstrict, hpaired⟩ := hopened.readers
    by_cases htask : strict'.task.isSome = true
    · refine .inl ⟨marked, some content, h.opens ((hlead.trans hnext.toLeads).trans hcontent),
        fun fuel fuel' => ?_⟩
      simp only [BlockReader.openContainers, hindent, hfew, hlenientNone, hstrictNone, hmarker,
        Option.map_some, hlenient, hstrict, hpaired.alike.task, htask, if_true]
      exact ⟨hpaired, rfl, rfl⟩
    · refine .inr ⟨marked, content, lenient', strict',
        .of_advances hhead hinner (hnext.trans_leads hcontent) hpaired,
        fun fuel => ?_, fun fuel => ?_⟩
      · simp only [BlockReader.openContainers, hindent, hfew, hlenientNone, hmarker,
          Option.map_some, hlenient, hpaired.alike.task, htask]
        rfl
      · simp only [BlockReader.openContainers, hindent, hfew, hstrictNone, hmarker,
          Option.map_some, hstrict, htask]
        rfl

theorem Paired.openContainer (h : Paired marks marked lenient strict)
    (hhead : (Head.start marked).Leads head) : OpensOnce marks marked head lenient strict := by
  have hstay : PairedHeads marks marked (some head) (lenient, some (head.side true))
      (strict, some (head.side false)) := ⟨h, rfl, rfl⟩
  obtain ⟨indent, inner, hinner, hindent⟩ := Head.takeUpTo hhead.ready 4
  have hlead := hhead.trans hinner
  by_cases hfour : 4 ≤ indent
  · refine .inl ⟨marked, some head, h.opens hhead, fun fuel fuel' => ?_⟩
    simp only [BlockReader.openContainers, hindent, hfour, if_true]
    exact hstay
  rcases h.footnote? hlead with ⟨hnone, hnone'⟩ |
    ⟨m, lenient', strict', hclear, hpos, hsome, hsome', hpaired⟩
  swap
  · refine .inr ⟨_, _, lenient', strict', .of_clear hhead hinner hclear hpos hpaired,
      fun fuel => ?_, fun fuel => ?_⟩
    · simp only [BlockReader.openContainers, hindent, hfour, hsome, hpaired.lenientRest]
      rfl
    · simp only [BlockReader.openContainers, hindent, hfour, hsome', hpaired.strictRest]
      rfl
  obtain ⟨found, hadvances, hmarker⟩ := Head.itemMarker? hlead.ready indent
  cases found with
  | some item =>
      exact h.opensItem hhead hinner hindent hfour (Bool.rec hnone' hnone)
        (hadvances item.1 item.2 rfl) hmarker
  | none =>
      obtain ⟨quote, hquote, hside⟩ := Head.quoteMarker? hlead.ready
      cases quote with
      | none =>
          refine .inl ⟨marked, some head, h.opens hhead, fun fuel fuel' => ?_⟩
          simp only [BlockReader.openContainers, hindent, hfour, hnone, hnone', hmarker, hside]
          exact hstay
      | some next =>
          have hpaired := h.stay ((h.alike.finishList lenient.position strict.position).push .quote
              (lenient.position + (inner.side true).taken)
              (strict.position + (inner.side false).taken))
            ((stays_finishList _ _).trans (stays_push _ _ _))
            ((stays_finishList _ _).trans (stays_push _ _ _))
          refine .inr ⟨marked, next, _, _, .of_advances hhead hinner (hquote next rfl) hpaired,
            fun fuel => ?_, fun fuel => ?_⟩
          · simp only [BlockReader.openContainers, hindent, hfour, hnone, hmarker, hside,
              Option.map_some, Option.map_none]
            rfl
          · simp only [BlockReader.openContainers, hindent, hfour, hnone', hmarker, hside,
              Option.map_some, Option.map_none]
            rfl

/-- Opening containers takes both readers to the same place. -/
theorem Paired.openContainers {n : Nat} (h : Paired marks marked lenient strict)
    (hhead : (Head.start marked).Leads head) (hn : (Marked.side false head.rest).length < n) :
    ∃ rest head?, Opens marked rest head? ∧
      ∀ fuel fuel', (Marked.side true head.rest).length < fuel →
        (Marked.side false head.rest).length < fuel' →
          PairedHeads marks rest head?
            (BlockReader.openContainers fuel (head.side true) lenient)
            (BlockReader.openContainers fuel' (head.side false) strict) := by
  induction n generalizing marked lenient strict head with
  | zero => exact absurd hn (Nat.not_lt_zero _)
  | succ n ih =>
  rcases h.openContainer hhead with ⟨rest, head?, hopens, hread⟩ |
    ⟨rest, next, lenient', strict', hgoes, hlenient, hstrict⟩
  · refine ⟨rest, head?, hopens, fun fuel fuel' hfuel hfuel' => ?_⟩
    obtain ⟨fuel, rfl⟩ := Nat.exists_eq_succ_of_ne_zero (Nat.ne_zero_of_lt hfuel)
    obtain ⟨fuel', rfl⟩ := Nat.exists_eq_succ_of_ne_zero (Nat.ne_zero_of_lt hfuel')
    exact hread fuel fuel'
  · have hless := hgoes.shorter false
    have hlessLenient := hgoes.shorter true
    obtain ⟨last, head?, hopens, hread⟩ := ih hgoes.paired hgoes.leads (by omega)
    refine ⟨last, head?, hopens.behind hgoes.clear, fun fuel fuel' hfuel hfuel' => ?_⟩
    obtain ⟨fuel, rfl⟩ := Nat.exists_eq_succ_of_ne_zero (Nat.ne_zero_of_lt hfuel)
    obtain ⟨fuel', rfl⟩ := Nat.exists_eq_succ_of_ne_zero (Nat.ne_zero_of_lt hfuel')
    rw [Nat.succ_eq_add_one, Nat.succ_eq_add_one, hlenient, hstrict]
    exact hread fuel fuel' (by omega) (by omega)

end

theorem isBlankLine_blank {c : Char} (hc : Ascii.isBlank c = true) (rest : Text) :
    Source.isBlankLine (c :: rest) = Source.isBlankLine rest := by
  simp [Source.isBlankLine, Source.blankLine?, hc]

/-- Indentation does not matter to whether a line is blank. -/
theorem isBlankLine_takeColumns (taken stop columns : Nat) (text : Text) :
    Source.isBlankLine (LineHead.takeColumns taken stop columns text).2.rest =
      Source.isBlankLine text := by
  fun_induction LineHead.takeColumns taken stop columns text with
  | case1 => rfl
  | case2 => rfl
  | case3 => rename_i ih; exact ih.trans (isBlankLine_blank rfl _).symm
  | case4 => exact (isBlankLine_blank rfl _).symm
  | case5 => rename_i ih; exact ih.trans (isBlankLine_blank rfl _).symm
  | case6 => rfl

theorem isBlankLine_takeUpTo (columns : Nat) (head : LineHead) :
    Source.isBlankLine (head.takeUpTo columns).2.rest = Source.isBlankLine head.rest := by
  unfold LineHead.takeUpTo LineHead.takeMissing
  simp only
  split
  · rfl
  · exact isBlankLine_takeColumns _ _ _ _

theorem isBlankLine_takeAll (head : LineHead) :
    Source.isBlankLine head.takeAll.rest = Source.isBlankLine head.rest := by
  obtain ⟨rest, taken, stop, pending⟩ := head
  simp only [LineHead.takeAll]
  induction rest with
  | nil => rfl
  | cons c rest ih =>
      rw [List.dropWhile_cons]
      split
      · next hc =>
          have hblank : Ascii.isBlank c = true := by
            simp only [Bool.or_eq_true, decide_eq_true_eq] at hc
            rcases hc with rfl | rfl <;> rfl
          exact ih.trans (isBlankLine_blank hblank rest).symm
      · rfl

theorem ne_nil_of_isBlankLine (h : Source.isBlankLine (marked.side false) = false) :
    marked ≠ [] := by
  rintro rfl
  cases h

/-! ## Reading leaves -/

theorem Paired.finishLeaf (h : Paired marks marked lenient strict) {head : Head}
    (hhead : (Head.start marked).Leads head) {read read' : LeafRead}
    (hread : LeafPair head.rest (strict.position + head.taken) read read') :
    ∃ passed rest, Passes marked passed rest ∧ (head.rest ≠ [] → rest.length < marked.length) ∧
      Paired marks rest (BlockReader.finishLeaf read lenient)
        (BlockReader.finishLeaf read' strict) := by
  obtain ⟨hliterals, passed, rest, hpasses, hshorter, hrest, hrest', hposition⟩ := hread
  obtain ⟨hclear, hdrop⟩ := hhead.from_start
  have hpassed := hclear.passes
  rw [← hdrop] at hpassed
  have hplaced := h.placed.passes (hpassed.trans hpasses)
  rw [Marked.side_append, List.length_append, hclear.length_take, ← Nat.add_assoc, ← hposition]
    at hplaced
  exact ⟨_, rest, hpassed.trans hpasses, fun hnil => (hshorter hnil).trans_le hpassed.length_le,
    h.alike.finishLeaf hliterals, hplaced, hrest, hrest'⟩

theorem Paired.readText (h : Paired marks marked lenient strict) {head : Head}
    (hhead : (Head.start marked).Leads head) :
    ∃ passed rest, Passes marked passed rest ∧ (head.rest ≠ [] → rest.length < marked.length) ∧
      Paired marks rest (BlockReader.readText (head.side true) lenient)
        (BlockReader.readText (head.side false) strict) := by
  have hidle : Paired marks marked { lenient with task := none } { strict with task := none } :=
    ⟨⟨h.alike.extensions, h.alike.containers, h.alike.literals, h.alike.emptyItem,
      h.alike.lastBlank, rfl⟩, h.placed, h.lenientRest, h.strictRest⟩
  obtain ⟨passed, rest, hpasses, hshorter, hread⟩ :=
    @Ready.paragraph strict.extensions strict.containers head.rest hhead.ready
  have hlenient := hread true
  rw [← h.alike.extensions, ← h.alike.containers_eq] at hlenient
  refine hidle.finishLeaf hhead ⟨fun inFootnote => ?_, passed, rest, hpasses, hshorter,
    (hlenient _ _).rest, (hread false _ _).rest, (hread false _ _).position⟩
  rw [LeafReader.literals_paragraph, LeafReader.literals_paragraph]

theorem scan?_pos {extensions : Extensions} {containers : List Container} {position n : Nat}
    {text : Text} {definition : Definition}
    (h : Definition.scan? extensions containers position text = some (definition, n)) : 0 < n := by
  unfold Definition.scan? at h
  simp only at h
  split at h
  · obtain ⟨⟨label, k⟩, -, h⟩ := Option.bind_eq_some_iff.mp h
    simp only at h
    split at h
    · obtain ⟨target, -, heq⟩ := Option.map_eq_some_iff.mp h
      cases heq
      omega
    · cases h
  · cases h

/-- A definition at the front, on both sides, up to the line ending behind it. -/
structure Scanned (extensions : Extensions) (containers : List Container)
    (marked passed behind : Marked) (ending : Nat) : Prop where
  split : marked = passed ++ behind
  clear : Clear ending behind
  blank : ∀ wrapped, Source.blankLine? (Marked.side wrapped behind) = some ending
  scan : ∀ wrapped position, ∃ definition, Definition.scan? extensions containers position
    (marked.side wrapped) = some (definition, (Marked.side wrapped passed).length)

section

variable {extensions : Extensions} {containers : List Container} {passed behind : Marked}
  {ending : Nat} {head : Head}

theorem Ready.scan? {marked : Marked} (h : Ready marked) :
    (∀ wrapped position, Definition.scan? extensions containers position (marked.side wrapped) =
      none) ∨
    ∃ passed behind ending, Scanned extensions containers marked passed behind ending := by
  obtain ⟨found, hfound⟩ := @Ready.definitionLength? extensions containers marked h
  have hread (wrapped : Bool) (position : Nat) := (hfound position).read wrapped
  cases found with
  | none =>
      exact .inl fun wrapped position =>
        Option.map_eq_none_iff.mp ((hread wrapped position).trans rfl)
  | some parts =>
      obtain ⟨passed, behind⟩ := parts
      obtain ⟨hsplit, hend⟩ := (hfound 0).reaches passed behind rfl
      obtain ⟨ending, hclear, hblank⟩ := hend.blankLine?
      refine .inr ⟨passed, behind, ending, hsplit, hclear, hblank, fun wrapped position => ?_⟩
      obtain ⟨⟨definition, n⟩, hscan, heq⟩ := Option.map_eq_some_iff.mp (hread wrapped position)
      cases heq
      exact ⟨definition, hscan⟩

theorem Scanned.pos (h : Scanned extensions containers marked passed behind ending)
    (wrapped : Bool) : 0 < (Marked.side wrapped passed).length := by
  obtain ⟨definition, hscan⟩ := h.scan wrapped 0
  exact scan?_pos hscan

/-- The line behind a definition, at the head from which its paragraph goes on if it does. -/
structure NextHead (extensions : Extensions) (containers : List Container) (behind : Marked)
    (stops : Bool) (last : Head) : Prop where
  leads : (Head.start behind).Leads last
  next : ∀ wrapped, ∃ inside content,
    LineHead.within containers (behind.side wrapped) = (inside, content) ∧
      (!(content.takeExactly 4).1 && Source.interrupts extensions containers inside
        (content.takeExactly 4).2.rest) = stops ∧
      (content.takeExactly 4).2.takeAll = last.side wrapped

theorem Ready.nextHead {behind : Marked} (h : Ready behind) :
    ∃ stops last, NextHead extensions containers behind stops last := by
  obtain ⟨inside, next, hnext, hwithin⟩ := h.within containers
  obtain ⟨indented, content, hcontent, hindented⟩ := Head.takeExactly hnext.ready 4
  obtain ⟨last, hlast, hall⟩ := Head.takeAll hcontent.ready
  have hinterrupts := @Ready.interrupts extensions containers content.rest hcontent.ready inside
  refine ⟨!indented && Source.interrupts extensions containers inside
    (Marked.side false content.rest), last, (hnext.trans hcontent).trans hlast, fun wrapped =>
      ⟨inside, next.side wrapped, hwithin wrapped, ?_⟩⟩
  rw [hindented wrapped, ← hinterrupts wrapped]
  exact ⟨rfl, hall wrapped⟩

theorem Scanned.readParagraph (h : Scanned extensions containers head.rest passed behind ending)
    {stops : Bool} {last : Head}
    (hnext : NextHead extensions containers (behind.drop ending) stops last) (wrapped : Bool)
    (reader : BlockReader) (hextensions : reader.extensions = extensions)
    (hcontainers : reader.containers = containers)
    (hbehind : reader.rest.drop (head.taken + (Marked.side wrapped passed).length + ending) =
      Marked.side wrapped (behind.drop ending)) :
    ∃ definitions, ∀ fuel, BlockReader.readParagraph (fuel + 1) (head.side wrapped) reader =
      let next := { reader.advance (head.taken + (Marked.side wrapped passed).length + ending) with
        definitions := definitions }
      if stops then next else BlockReader.readParagraph fuel (last.side wrapped) next := by
  obtain ⟨definition, hscan⟩ := h.scan wrapped (reader.position + head.taken)
  obtain ⟨inside, content, hwithin, hstops, hall⟩ := hnext.next wrapped
  refine ⟨Definition.register reader.definitions definition, fun fuel => ?_⟩
  have hlength : (Marked.side wrapped head.rest).drop (Marked.side wrapped passed).length =
      Marked.side wrapped behind := by
    rw [h.split, Marked.side_append, List.drop_left]
  have hrest : (head.side wrapped).rest = Marked.side wrapped head.rest := rfl
  have htaken : (head.side wrapped).taken = head.taken := rfl
  rw [← hstops, ← hall]
  simp only [BlockReader.readParagraph, hextensions, hcontainers, hrest, hscan, hlength,
    h.blank, Option.getD_some, BlockReader.advance, htaken, hbehind, hwithin]

end

theorem Paired.readDefinition (h : Paired marks marked lenient strict) {head : Head}
    (hhead : (Head.start marked).Leads head) {passed behind : Marked} {ending : Nat}
    (hscanned : Scanned strict.extensions strict.containers head.rest passed behind ending) :
    ∃ (stops : Bool) (last : Head) (passed : Marked) (lenient' strict' : BlockReader),
      (Head.start (behind.drop ending)).Leads last ∧
      Passes marked passed (behind.drop ending) ∧ (behind.drop ending).length < marked.length ∧
      (∀ wrapped, (Marked.side wrapped last.rest).length <
        (Marked.side wrapped head.rest).length) ∧
      Paired marks (behind.drop ending) lenient' strict' ∧
      (∀ fuel, BlockReader.readParagraph (fuel + 1) (head.side true) lenient =
        if stops then lenient' else BlockReader.readParagraph fuel (last.side true) lenient') ∧
      ∀ fuel, BlockReader.readParagraph (fuel + 1) (head.side false) strict =
        if stops then strict' else BlockReader.readParagraph fuel (last.side false) strict' := by
  obtain ⟨hstart, hdrop⟩ := hhead.from_start
  have hmarkers := hstart.passes
  rw [← hdrop] at hmarkers
  have hwhole : Passes marked (marked.take head.taken ++ (passed ++ behind.take ending))
      (behind.drop ending) :=
    hmarkers.trans ⟨by rw [List.append_assoc, List.take_append_drop, hscanned.split],
      hscanned.clear.ready⟩
  have hwidth (wrapped : Bool) : (Marked.side wrapped (marked.take head.taken ++
      (passed ++ behind.take ending))).length =
        head.taken + (Marked.side wrapped passed).length + ending := by
    simp [hstart.length_take, hscanned.clear.length_take, Nat.add_assoc]
  have hshorter := hwhole.shorter (by rw [hwidth]; have := hscanned.pos false; omega)
  have hadvance := h.advance hwhole
  rw [hwidth, hwidth] at hadvance
  obtain ⟨stops, last, hnext⟩ :=
    @Ready.nextHead strict.extensions strict.containers _ hscanned.clear.ready
  obtain ⟨definitions, hlenient⟩ := hscanned.readParagraph hnext true lenient
    h.alike.extensions h.alike.containers_eq hadvance.lenientRest
  obtain ⟨definitions', hstrict⟩ := hscanned.readParagraph hnext false strict rfl rfl
    hadvance.strictRest
  have hknown : Paired marks (behind.drop ending)
      { lenient.advance (head.taken + (Marked.side true passed).length + ending) with
        definitions := definitions }
      { strict.advance (head.taken + (Marked.side false passed).length + ending) with
        definitions := definitions' } :=
    ⟨⟨h.alike.extensions, hadvance.alike.containers, hadvance.alike.literals,
      hadvance.alike.emptyItem, hadvance.alike.lastBlank, hadvance.alike.task⟩,
      hadvance.placed, hadvance.lenientRest, hadvance.strictRest⟩
  refine ⟨stops, last, _, _, _, hnext.leads, hwhole, hshorter, fun wrapped => ?_, hknown,
    hlenient, hstrict⟩
  have hlength := hnext.leads.length_side wrapped
  have hclearLength := hscanned.clear.length_drop wrapped
  have hsplitLength := congrArg (fun marked => (Marked.side wrapped marked).length) hscanned.split
  have hpos := hscanned.pos wrapped
  simp only [Head.start, Marked.side_append, List.length_append] at hlength hsplitLength
  omega

/-- Definitions are read on both sides, and the paragraph behind them. -/
theorem Paired.readParagraph {n : Nat} (h : Paired marks marked lenient strict) {head : Head}
    (hhead : (Head.start marked).Leads head) (hn : (Marked.side false head.rest).length < n) :
    ∃ passed rest, Passes marked passed rest ∧ (head.rest ≠ [] → rest.length < marked.length) ∧
      ∀ fuel fuel', (Marked.side true head.rest).length < fuel →
        (Marked.side false head.rest).length < fuel' →
          Paired marks rest (BlockReader.readParagraph fuel (head.side true) lenient)
            (BlockReader.readParagraph fuel' (head.side false) strict) := by
  induction n generalizing marked lenient strict head with
  | zero => exact absurd hn (Nat.not_lt_zero _)
  | succ n ih =>
  rcases @Ready.scan? strict.extensions strict.containers head.rest hhead.ready with
    hnone | ⟨_, behind, ending, hscanned⟩
  · obtain ⟨passed, rest, hpasses, hshorter, hpaired⟩ := h.readText hhead
    refine ⟨passed, rest, hpasses, hshorter, fun fuel fuel' hfuel hfuel' => ?_⟩
    obtain ⟨fuel, rfl⟩ := Nat.exists_eq_succ_of_ne_zero (Nat.ne_zero_of_lt hfuel)
    obtain ⟨fuel', rfl⟩ := Nat.exists_eq_succ_of_ne_zero (Nat.ne_zero_of_lt hfuel')
    have hrest (wrapped : Bool) : (head.side wrapped).rest = Marked.side wrapped head.rest := rfl
    simp only [BlockReader.readParagraph, h.alike.extensions, h.alike.containers_eq, hrest, hnone]
    exact hpaired
  · obtain ⟨stops, last, passed, lenient', strict', hleads, hpasses, hshorter, hless, hpaired,
      hlenient, hstrict⟩ := h.readDefinition hhead hscanned
    cases stops with
    | true =>
        refine ⟨passed, _, hpasses, fun _ => hshorter, fun fuel fuel' hfuel hfuel' => ?_⟩
        obtain ⟨fuel, rfl⟩ := Nat.exists_eq_succ_of_ne_zero (Nat.ne_zero_of_lt hfuel)
        obtain ⟨fuel', rfl⟩ := Nat.exists_eq_succ_of_ne_zero (Nat.ne_zero_of_lt hfuel')
        rw [Nat.succ_eq_add_one, hlenient, Nat.succ_eq_add_one, hstrict]
        exact hpaired
    | false =>
        have hstrictLess := hless false
        have hlenientLess := hless true
        obtain ⟨more, rest, hmore, -, hread⟩ := ih hpaired hleads (by omega)
        refine ⟨passed ++ more, rest, hpasses.trans hmore,
          fun _ => hmore.length_le.trans_lt hshorter, fun fuel fuel' hfuel hfuel' => ?_⟩
        obtain ⟨fuel, rfl⟩ := Nat.exists_eq_succ_of_ne_zero (Nat.ne_zero_of_lt hfuel)
        obtain ⟨fuel', rfl⟩ := Nat.exists_eq_succ_of_ne_zero (Nat.ne_zero_of_lt hfuel')
        rw [Nat.succ_eq_add_one, hlenient, Nat.succ_eq_add_one, hstrict]
        exact hread fuel fuel' (by omega) (by omega)

theorem leafFree_of_finishLeaf {read : LeafRead} {reader : BlockReader}
    (h : ∀ literal ∈ (BlockReader.finishLeaf read reader).literals, Free marks literal.pieces) :
    LeafFree marks read.leaf := by
  rw [literals_finishLeaf] at h
  have hleaf (literal : Literal)
      (hliteral : literal ∈ read.leaf.literals (BlockReader.inFootnote reader.spine)) :
      Free marks literal.pieces := h literal (List.mem_append_right _ hliteral)
  intro literal hliteral
  cases hcase : read.leaf <;> rw [hcase] at hliteral hleaf <;>
    simp_all [LeafBlock.literals]

theorem Paired.withLastBlank (h : Paired marks marked lenient strict) (blank : Bool) :
    Paired marks marked { lenient with lastBlank := blank } { strict with lastBlank := blank } :=
  h.stay (h.alike.withLastBlank blank) ⟨rfl, rfl, rfl, rfl, rfl⟩ ⟨rfl, rfl, rfl, rfl, rfl⟩

theorem Ready.htmlEnd? {marked : Marked} (h : Ready marked) (wrapped : Bool) :
    (if (marked.side wrapped).head? = some '<' then
        HtmlBlock.end? ((marked.side wrapped).drop 1) else none) =
      if (marked.side false).head? = some '<' then HtmlBlock.end? ((marked.side false).drop 1)
      else none := by
  rcases h.cases with rfl | ⟨c, rest, rfl, -, hrest⟩
  · simp
  by_cases hc : c = '<'
  · subst hc
    have hsame : SameLine (Marked.side wrapped rest) (Marked.side false rest) :=
      hrest.sameLine wrapped
    simp [hsame.htmlEnd?]
  · simp [hc]

theorem rule?_pos {text : Text} {n : Nat} (h : Source.rule? text = some n) : 0 < n := by
  unfold Source.rule? at h
  split at h
  · cases h
  · next c rest =>
      obtain ⟨-, h⟩ := Option.ite_none_right_eq_some.mp h
      simp only at h
      split at h
      · obtain ⟨hcount, heq⟩ := Option.ite_none_right_eq_some.mp h
        cases heq
        have hle := hcount.trans List.countP_le_length
        omega
      · cases h

theorem headingLevel?_pos {text : Text} {level : Nat}
    (h : Source.headingLevel? text = some level) : 0 < level := by
  unfold Source.headingLevel? at h
  simp only at h
  obtain ⟨hlevel, heq⟩ := Option.ite_none_right_eq_some.mp h
  cases heq
  simp only [Bool.and_eq_true, decide_eq_true_eq] at hlevel
  omega

/-- The leaf at a head behind its indentation, and whether a blank line ends it; none if there is
a paragraph, or definitions in front of one. -/
def leaf? (extensions : Extensions) (containers : List Container) (pending indent : Nat)
    (inner : LineHead) (position : Nat) (blank : Bool) : Option (LeafRead × Bool) :=
  let text := inner.rest
  if indent = 4 then some (LeafReader.indentedCode containers inner.pending position text)
  else if indent = 0 && extensions.frontMatter && startsMetadata text then
    some (LeafReader.metadata containers position text, blank)
  else
    match if text.head? = some '<' then HtmlBlock.end? (text.drop 1) else none with
    | some ends => some (LeafReader.html containers ends pending position text, blank)
    | none =>
        match rule? text with
        | some n => some (⟨.rule, .ofLength position n, position + n, text.drop n⟩, blank)
        | none =>
            match headingLevel? text with
            | some level => some (LeafReader.heading extensions position level text, blank)
            | none =>
                (fence? text).map fun (size, char) =>
                  (LeafReader.fencedCode containers indent position char size text, blank)

theorem readLeaf_eq {head inner : LineHead} {reader finished : BlockReader} {indent : Nat}
    (hfinished : reader.finishList reader.position = finished)
    (hindent : head.takeUpTo 4 = (indent, inner)) (htask : finished.task.isSome = false) :
    BlockReader.readLeaf head reader =
      match leaf? finished.extensions finished.containers (max head.pending indent) indent inner
        (finished.position + inner.taken) finished.lastBlank with
      | some (leaf, blank) => BlockReader.finishLeaf leaf { finished with lastBlank := blank }
      | none => BlockReader.readParagraph (inner.rest.length + 1) inner finished := by
  simp only [BlockReader.readLeaf, hfinished, hindent, htask, Bool.false_eq_true, if_false, leaf?]
  generalize (if inner.rest.head? = some '<' then HtmlBlock.end? (inner.rest.drop 1) else none) =
    html
  split_ifs
  · rfl
  · rfl
  cases html with
  | some ends => rfl
  | none =>
  cases Source.rule? inner.rest with
  | some n => rfl
  | none =>
  cases Source.headingLevel? inner.rest with
  | some level => rfl
  | none => cases Source.fence? inner.rest <;> rfl

/-- The same leaf is found on both sides, unless a bracket opens in its literal text. -/
theorem Placed.leaf? {extensions : Extensions} {containers : List Container}
    {pending indent position : Nat} {inner : Head} {blank : Bool}
    (h : Placed marks position inner.rest) (hnil : inner.rest ≠ []) (hindent : indent ≤ 4)
    (hfree : ∀ found ∈ SpacedDestination.leaf? extensions containers pending indent
      (inner.side false) position blank, LeafFree marks found.1.leaf) (position' : Nat) :
    (SpacedDestination.leaf? extensions containers pending indent (inner.side true) position'
        blank = none ∧
      SpacedDestination.leaf? extensions containers pending indent (inner.side false) position
        blank = none) ∨
    ∃ read read' last, LeafPair inner.rest position read read' ∧
      SpacedDestination.leaf? extensions containers pending indent (inner.side true) position'
        blank = some (read, last) ∧
      SpacedDestination.leaf? extensions containers pending indent (inner.side false) position
        blank = some (read', last) := by
  have hready : Ready inner.rest := h.ready
  have hrest (wrapped : Bool) : (inner.side wrapped).rest = Marked.side wrapped inner.rest := rfl
  have hpending (wrapped : Bool) : (inner.side wrapped).pending = inner.pending := rfl
  simp only [SpacedDestination.leaf?, hrest, hpending, hready.startsMetadata true,
    hready.htmlEnd? true, hready.rule?.side true, hready.headingLevel?.side true,
    hready.fence?.1 true] at hfree ⊢
  by_cases hfour : indent = 4
  · rw [if_pos hfour] at hfree
    rw [if_pos hfour, if_pos hfour]
    obtain ⟨hpair, hlast⟩ := h.indentedCode hnil (hfree _ rfl) position'
    exact .inr ⟨_, _, _, hpair, congrArg some (Prod.ext rfl rfl),
      congrArg some (Prod.ext rfl hlast.symm)⟩
  simp only [hfour, if_false] at hfree ⊢
  by_cases hmetadata : (decide (indent = 0) && extensions.frontMatter &&
      Source.startsMetadata (Marked.side false inner.rest)) = true
  · simp only [hmetadata, if_true] at hfree ⊢
    exact .inr ⟨_, _, _, h.metadata (hfree _ rfl) _, rfl, rfl⟩
  simp only [hmetadata, Bool.false_eq_true, if_false] at hfree ⊢
  cases hhtml : (if (Marked.side false inner.rest).head? = some '<' then
      HtmlBlock.end? ((Marked.side false inner.rest).drop 1) else none) with
  | some ends =>
      simp only [hhtml] at hfree ⊢
      exact .inr ⟨_, _, _, h.html hnil (hfree _ rfl) _, rfl, rfl⟩
  | none =>
  simp only [hhtml] at hfree ⊢
  cases hrule : Source.rule? (Marked.side false inner.rest) with
  | some n =>
      have hclear := hready.rule?.clear n hrule
      refine .inr ⟨_, _, _, ?_, rfl, rfl⟩
      refine ⟨fun inFootnote => rfl, _, _, hclear.passes, fun _ => ?_, hclear.drop_side true,
        hclear.drop_side false, ?_⟩
      · exact hclear.passes.shorter (by rw [hclear.length_take]; exact rule?_pos hrule)
      · rw [hclear.length_take]
  | none =>
  simp only [hrule] at hfree ⊢
  cases hheading : Source.headingLevel? (Marked.side false inner.rest) with
  | some level =>
      have hclear := hready.headingLevel?.clear level hheading
      obtain ⟨passed, rest, hpasses, hshorter, hread⟩ :=
        @Ready.heading extensions level inner.rest hclear (headingLevel?_pos hheading)
      refine .inr ⟨_, _, _, ?_, rfl, rfl⟩
      refine ⟨fun inFootnote => ?_, passed, rest, hpasses, fun _ => hshorter,
        (hread true _).rest, (hread false _).rest, (hread false _).position⟩
      rw [LeafReader.literals_heading, LeafReader.literals_heading]
  | none =>
  simp only [hheading] at hfree ⊢
  cases hfence : Source.fence? (Marked.side false inner.rest) with
  | some fence =>
      rw [hfence] at hfree
      exact .inr ⟨_, _, _, h.fencedCode (lt_of_le_of_ne hindent hfour) hfence (hfree _ rfl) _,
        rfl, rfl⟩
  | none => exact .inl ⟨rfl, rfl⟩

theorem Paired.readLeaf (h : Paired marks marked lenient strict) {head : Head}
    (hhead : (Head.start marked).Leads head)
    (hblank : Source.isBlankLine (Marked.side false head.rest) = false)
    (hfree : ∀ literal ∈ (BlockReader.readLeaf (head.side false) strict).literals,
      Free marks literal.pieces) :
    ∃ passed rest, Passes marked passed rest ∧ rest.length < marked.length ∧
      Paired marks rest (BlockReader.readLeaf (head.side true) lenient)
        (BlockReader.readLeaf (head.side false) strict) := by
  obtain ⟨indent, inner, hinner, hindent⟩ := Head.takeUpTo hhead.ready 4
  have hlead := hhead.trans hinner
  have hindentLe : indent ≤ 4 := (congrArg Prod.fst (hindent false)).symm.trans_le (Nat.sub_le _ _)
  obtain ⟨lenient', hlenient⟩ : ∃ reader, lenient.finishList lenient.position = reader := ⟨_, rfl⟩
  obtain ⟨strict', hstrict⟩ : ∃ reader, strict.finishList strict.position = reader := ⟨_, rfl⟩
  have hfinished : Paired marks marked lenient' strict' := by
    rw [← hlenient, ← hstrict]
    exact h.stay (h.alike.finishList _ _) (stays_finishList _ _) (stays_finishList _ _)
  cases htask : strict'.task.isSome with
  | true =>
      obtain ⟨content, hcontent, hall⟩ := Head.takeAll hhead.ready
      have hnil : content.rest ≠ [] := by
        have htake := isBlankLine_takeAll (head.side false)
        rw [hall] at htake
        exact ne_nil_of_isBlankLine (htake.trans hblank)
      obtain ⟨passed, rest, hpasses, hshorter, hpaired⟩ :=
        hfinished.readText (hhead.trans hcontent)
      refine ⟨passed, rest, hpasses, hshorter hnil, ?_⟩
      simpa only [BlockReader.readLeaf, hlenient, hstrict, hindent, hall, hfinished.alike.task,
        htask, if_true] using hpaired
  | false =>
  have hnil : inner.rest ≠ [] := by
    have htake := isBlankLine_takeUpTo 4 (head.side false)
    rw [hindent] at htake
    exact ne_nil_of_isBlankLine (htake.trans hblank)
  have hpending : (head.side true).pending = (head.side false).pending := rfl
  rw [readLeaf_eq hstrict (hindent false) htask] at hfree ⊢
  have hasks : leaf? lenient'.extensions lenient'.containers (max (head.side true).pending indent)
      indent (inner.side true) (lenient'.position + (inner.side true).taken) lenient'.lastBlank =
      leaf? strict'.extensions strict'.containers (max (head.side false).pending indent) indent
        (inner.side true) (lenient'.position + (inner.side true).taken) strict'.lastBlank := by
    rw [hpending, hfinished.alike.extensions, hfinished.alike.containers_eq,
      hfinished.alike.lastBlank]
  rw [readLeaf_eq hlenient (hindent true) (hfinished.alike.task.trans htask), hasks]
  have hleaf := @Placed.leaf? marks strict'.extensions strict'.containers
    (max (head.side false).pending indent) indent (strict'.position + (inner.side false).taken)
    inner strict'.lastBlank (hfinished.placed.head hlead) hnil hindentLe
  generalize leaf? _ _ _ _ (inner.side false) _ _ = found at hleaf hfree ⊢
  have hliterals (leaf : LeafRead × Bool) (hfound : leaf ∈ found) : LeafFree marks leaf.1.leaf := by
    obtain rfl := hfound
    exact leafFree_of_finishLeaf hfree
  rcases hleaf hliterals (lenient'.position + (inner.side true).taken) with
    ⟨hnone, rfl⟩ | ⟨read, read', last, hpair, hsome, rfl⟩
  · rw [hnone]
    obtain ⟨passed, rest, hpasses, hshorter, hread⟩ :=
      hfinished.readParagraph hlead (Nat.lt_succ_self _)
    exact ⟨passed, rest, hpasses, hshorter hnil,
      hread _ _ (Nat.lt_succ_self _) (Nat.lt_succ_self _)⟩
  · rw [hsome]
    obtain ⟨passed, rest, hpasses, hshorter, hpaired⟩ :=
      (hfinished.withLastBlank last).finishLeaf hlead hpair
    exact ⟨passed, rest, hpasses, hshorter hnil, hpaired⟩

/-! ## Reading blocks -/

theorem Opens.passes {rest : Marked} {head? : Option Head} (h : Opens marked rest head?) :
    ∃ passed, Passes marked passed rest := by
  obtain ⟨⟨n, hclear, rfl⟩, -⟩ := h
  exact ⟨_, hclear.passes⟩

theorem Paired.blankLine (h : Paired marks marked lenient strict) {n : Nat}
    (hclear : Clear n marked) :
    Paired marks (marked.drop n) (lenient.blankLine n) (strict.blankLine n) := by
  have hadvance := h.advance_clear hclear
  exact hadvance.stay (h.alike.blankLine n n) (stays_blankLine n lenient) (stays_blankLine n strict)

theorem Paired.readBlock (h : Paired marks marked lenient strict) (hnil : marked ≠ [])
    (hfree : ∀ literal ∈ strict.readBlock.literals, Free marks literal.pieces) :
    ∃ passed rest, Passes marked passed rest ∧ rest.length < marked.length ∧
      Paired marks rest lenient.readBlock strict.readBlock := by
  obtain ⟨depth, head, hhead, hcontinues⟩ :=
    @Head.continuation (Head.start marked) h.placed.ready strict.containers
  have hstart (wrapped : Bool) (reader : BlockReader) (hrest : reader.rest = marked.side wrapped)
      (hcontainers : reader.containers = strict.containers) :
      LineHead.continuation reader.containers (LineHead.start reader.rest) =
        (depth, head.side wrapped) := by
    rw [hcontainers, hrest]
    exact hcontinues wrapped
  have hclosed := h.stay (h.alike.closeTo depth lenient.position strict.position)
    (stays_closeTo depth lenient.position lenient) (stays_closeTo depth strict.position strict)
  have hfuel (wrapped : Bool) : (Marked.side wrapped head.rest).length <
      (marked.side wrapped).length + 1 := by
    have hlength := hhead.length_side wrapped
    simp only [Head.start] at hlength
    omega
  obtain ⟨rest, head?, hopens, hopened⟩ := hclosed.openContainers hhead (Nat.lt_succ_self _)
  obtain ⟨lenient', strict', hlenient, hstrict, hpaired⟩ :=
    (hopened _ _ (hfuel true) (hfuel false)).readers
  obtain ⟨first, hfirst⟩ := hopens.passes
  unfold BlockReader.readBlock at hfree ⊢
  simp only [hstart true lenient h.lenientRest h.alike.containers_eq,
    hstart false strict h.strictRest rfl, hclosed.lenientRest, hclosed.strictRest, hlenient,
    hstrict] at hfree ⊢
  cases head? with
  | none => exact ⟨first, rest, hfirst, hopens.2.1 rfl, hpaired⟩
  | some content =>
      have hcontent := hopens.2.2 content rfl
      have hrest (wrapped : Bool) :
          (content.side wrapped).rest = Marked.side wrapped content.rest :=
        rfl
      have htaken (wrapped : Bool) : (content.side wrapped).taken = content.taken := rfl
      simp only [Option.map_some, hrest, htaken, hcontent.ready.blankLine?.side true] at hfree ⊢
      cases hblank : Source.blankLine? (Marked.side false content.rest) with
      | some n =>
          simp only [hblank] at hfree ⊢
          obtain ⟨hclear, -⟩ := hcontent.clear_add (hcontent.ready.blankLine?.clear n hblank)
          refine ⟨_, _, hfirst.trans hclear.passes, ?_, hpaired.blankLine hclear⟩
          by_cases hrestNil : rest = []
          · subst hrestNil
            simpa using List.length_pos_iff.mpr hnil
          · exact (hcontent.blankLine hrestNil hblank).2.trans_le hfirst.length_le
      | none =>
          simp only [hblank] at hfree ⊢
          obtain ⟨passed, last, hpasses, hshorter, hread⟩ := hpaired.readLeaf hcontent
            (by rw [Source.isBlankLine, hblank]; rfl) hfree
          exact ⟨_, last, hfirst.trans hpasses, hshorter.trans_le hfirst.length_le, hread⟩

theorem Paired.readBlocks {n : Nat} (h : Paired marks marked lenient strict)
    (hn : (Marked.side false marked).length < n) :
    ∀ fuel fuel', (Marked.side true marked).length < fuel →
      (Marked.side false marked).length < fuel' →
        (∀ literal ∈ (BlockReader.readBlocks fuel' strict).literals, Free marks literal.pieces) →
          Alike (BlockReader.readBlocks fuel lenient) (BlockReader.readBlocks fuel' strict) := by
  induction n generalizing marked lenient strict with
  | zero => exact absurd hn (Nat.not_lt_zero _)
  | succ n ih =>
      intro fuel fuel' hfuel hfuel' hfree
      obtain ⟨fuel, rfl⟩ := Nat.exists_eq_succ_of_ne_zero (Nat.ne_zero_of_lt hfuel)
      obtain ⟨fuel', rfl⟩ := Nat.exists_eq_succ_of_ne_zero (Nat.ne_zero_of_lt hfuel')
      have hready : Ready marked := h.placed.ready
      simp only [BlockReader.readBlocks, h.lenientRest, h.strictRest, hready.isEmpty_side true]
        at hfree ⊢
      by_cases hempty : (Marked.side false marked).isEmpty = true
      · rw [if_pos hempty, if_pos hempty]
        exact h.alike
      · rw [if_neg hempty] at hfree
        rw [if_neg hempty, if_neg hempty]
        have hnil : marked ≠ [] := by
          rintro rfl
          exact hempty rfl
        obtain ⟨passed, rest, hpasses, hshorter, hread⟩ := h.readBlock hnil fun literal hliteral =>
          hfree literal ((literals_readBlocks fuel' _).subset hliteral)
        have hless := hpasses.length_side hready hshorter
        exact ih hread (by have := hless false; omega) fuel fuel' (by have := hless true; omega)
          (by have := hless false; omega) hfree

/-- The literal text of a source is the same with and without its marks, unless a bracket opens in
it. -/
theorem literals_readSource (extensions : Extensions) {marked : Marked} (h : Ready marked)
    (hfree : ∀ literal ∈ (readSource extensions (marked.side false)).literals,
      Free (openings 0 marked) literal.pieces) :
    (readSource extensions (marked.side true)).literals.map Literal.content =
      (readSource extensions (marked.side false)).literals.map Literal.content := by
  have hpaired : Paired (openings 0 marked) marked
      { extensions := extensions, position := 0, rest := marked.side true }
      { extensions := extensions, position := 0, rest := marked.side false } :=
    ⟨⟨rfl, rfl, rfl, rfl, rfl, rfl⟩, ⟨h, fun p hp => hp⟩, rfl, rfl⟩
  rw [readSource, literals_closeTo] at hfree
  have hread := hpaired.readBlocks (Nat.lt_succ_self _) _ _ (Nat.lt_succ_self _)
    (Nat.lt_succ_self _) hfree
  rw [readSource, readSource, literals_closeTo, literals_closeTo]
  exact hread.literals

end Canonmark.SpacedDestination
