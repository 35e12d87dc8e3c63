import Canonmark.Proofs.Printed.Entry
import Canonmark.Proofs.Source.TokenLine

/-!
# Printed paragraphs

The lines of a settled paragraph are read as one paragraph, which ends where something stops it:
a blank line, the end of the text, or a line that starts another block.
-/

namespace Canonmark.Printed

open Source

variable {extensions : Extensions} {source : Text} {reader : BlockReader}
variable {levels : List Level} {draft : Draft} {more : List Container}
variable {containers : List Container}

theorem drop_one_visible {line : Text} (hvisible : Visible line) (behind : Text) :
    (line ++ behind).drop 1 = line.drop 1 ++ behind := by
  obtain ⟨c, rest, rfl, -⟩ := hvisible
  rfl

theorem itemStart?_same {line : Text} (hone : OneLine line) (behind : Text)
    {found : Char × Nat × Bool} (h : itemStart? (line ++ '\n' :: behind) = some found) :
    ∃ empty, itemStart? (line ++ ['\n']) = some (found.1, found.2.1, empty) := by
  have hsame := (hone.same behind).itemStart?
  rw [h] at hsame
  obtain ⟨⟨marker, number, empty⟩, hstart, heq⟩ := Option.map_eq_some_iff.mp hsame
  obtain ⟨rfl, rfl⟩ := Prod.mk.inj heq
  exact ⟨empty, hstart⟩

theorem startsBlock_continues {line : Text} (hone : OneLine line)
    (h : continuesParagraph extensions line = true) (behind : Text) :
    startsBlock extensions true false (line ++ '\n' :: behind) = false := by
  simp only [continuesParagraph, isMarked, Bool.and_eq_true, Bool.not_eq_true',
    Bool.or_eq_false_iff, decide_eq_false_iff_not, Option.isSome_eq_false_iff,
    Option.isNone_iff_eq_none] at h
  obtain ⟨⟨⟨⟨⟨⟨hvisible, ⟨⟨hrule, hheading⟩, hfence⟩, hquote⟩, hlabels⟩, hitem⟩, hhtml⟩, -⟩, -⟩ := h
  have hvisible := visible_of_isVisible hvisible
  have hsame := hone.same behind
  have hhead := hvisible.head? ('\n' :: behind)
  have hitems : (itemStart? (line ++ '\n' :: behind)).any (fun found =>
      !true || false || ((isBullet found.1 || found.2.1 = 1) && !found.2.2)) = false := by
    cases hfound : itemStart? (line ++ '\n' :: behind) with
    | none => rfl
    | some marker =>
        obtain ⟨empty, hstart⟩ := itemStart?_same hone behind hfound
        simp only [hstart, Option.all_some, Bool.and_eq_true, Bool.not_eq_true',
          decide_eq_true_eq] at hitem
        simp [hitem]
  have htag : (decide ((line ++ '\n' :: behind).head? = some '<')
      && HtmlBlock.interrupts ((line ++ '\n' :: behind).drop 1)) = false := by
    rw [drop_one_visible hvisible, ← ((hone.drop 1).same behind).interrupts]
    simpa only [hhead] using hhtml
  have hfootnote : (extensions.footnotes && startsFootnote (line ++ '\n' :: behind)) = false := by
    rw [startsFootnote_eq hone hlabels, Bool.and_false]
  unfold startsBlock
  rw [hvisible.eol?, ← hsame.rule?, hrule, ← hsame.headingLevel?, hheading, ← hsame.fence?, hfence,
    htag, hfootnote, hhead, decide_eq_false hquote]
  simp only [Option.isSome_none, Bool.false_or, Bool.or_false]
  exact hitems

def NoSeparator (extensions : Extensions) (containers : List Container) (next : Text) : Prop :=
  extensions.tables = true → ∀ head, LineHead.within containers next = (true, head) →
    Table.separator? head.rest = none

theorem head?_noSeparator {line next : Text} (hone : OneLine line)
    (h : NoSeparator extensions containers next) (htables : extensions.tables = true)
    (paired : Bool) : Table.head? containers paired (line ++ '\n' :: next) = none := by
  have hcount :
      countWhile (fun c => c ≠ '\n' && c ≠ '\r') (line ++ '\n' :: next) = line.length := by
    rw [countWhile, List.takeWhile_append_of_pos]
    · simp
    · intro c hmem
      have hfeed : c ≠ '\n' := fun hsame => hone.1 (hsame ▸ hmem)
      have hcarriage : c ≠ '\r' := fun hsame => hone.2 (hsame ▸ hmem)
      simp [hfeed, hcarriage]
  simp only [Table.head?, hcount, List.drop_left, Source.eol?, Option.getD_some, drop_line]
  split_ifs with hshort houtside
  · rfl
  · rfl
  · rw [h htables _ (Prod.ext (by simpa using houtside) rfl), Option.bind_none]

theorem noSeparator_line {line : Text} (hfits : Fits levels containers) (hvisible : Visible line)
    (hone : OneLine line)
    (h : extensions.tables = true → Table.separator? (line ++ ['\n']) = none) (behind : Text) :
    NoSeparator extensions containers (carry levels line ++ '\n' :: behind) := by
  intro htables head hwithin
  obtain ⟨front, -, hfound⟩ := within_carry hfits line behind
  rw [hfound] at hwithin
  cases hwithin
  rw [headAt, ← separator?_same hvisible hone, h htables]

theorem continuesParagraph_facts {line : Text} (h : continuesParagraph extensions line = true) :
    Visible line ∧ underline? (line ++ ['\n']) = none ∧
      (extensions.tables = true → Table.separator? (line ++ ['\n']) = none) := by
  simp only [continuesParagraph, Bool.and_eq_true, Bool.not_eq_true', Bool.and_eq_false_iff,
    Option.isSome_eq_false_iff, Option.isNone_iff_eq_none] at h
  obtain ⟨⟨⟨⟨⟨⟨hvisible, -⟩, -⟩, -⟩, -⟩, hunderline⟩, hseparator⟩ := h
  refine ⟨visible_of_isVisible hvisible, hunderline, fun htables => ?_⟩
  rcases hseparator with hdisabled | hnone
  · rw [htables] at hdisabled
    cases hdisabled
  · exact hnone

theorem noSeparator_below (hfits : Fits levels containers) {later : List Text}
    (hgoesOn : ∀ line ∈ later, continuesParagraph extensions line = true)
    (hones : ∀ line ∈ later, OneLine line) {tail : Text}
    (h : NoSeparator extensions containers tail) :
    NoSeparator extensions containers (below levels later ++ tail) := by
  cases later with
  | nil => exact h
  | cons next later =>
      obtain ⟨hvisible, -, hseparator⟩ := continuesParagraph_facts (hgoesOn next List.mem_cons_self)
      rw [below_cons, List.append_assoc, List.cons_append]
      exact noSeparator_line hfits hvisible (hones next List.mem_cons_self) hseparator _

theorem interrupts_continues {line next : Text} (hone : OneLine line)
    (h : continuesParagraph extensions line = true)
    (hseparator : NoSeparator extensions containers next) :
    interrupts extensions containers true (line ++ '\n' :: next) = false := by
  rw [interrupts, startsBlock_continues hone h, Bool.false_or]
  cases htables : extensions.tables with
  | false => rfl
  | true => rw [head?_noSeparator hone hseparator htables, Option.isSome_none, Bool.and_false]

/-! ## Ends of paragraphs -/

/-- What stands behind a paragraph in these containers ends it, and does not change it. -/
inductive Stops (extensions : Extensions) (containers : List Container) (tail : Text) : Prop
  | intro (inside : Bool) (taken : Nat) (text : Text) :
      LineHead.within containers tail = (inside, headAt taken text) →
        text.head? ≠ some ' ' ∧ text.head? ≠ some '\t' →
          (inside = true → underline? text = none) →
            NoSeparator extensions containers tail →
              interrupts extensions containers inside text = true ∨
                (headAt taken text).atEol = true → Stops extensions containers tail

theorem takeAll_headAt {text : Text} (hfront : text.head? ≠ some ' ' ∧ text.head? ≠ some '\t')
    (taken : Nat) : (headAt taken text).takeAll = headAt taken text := by
  cases text with
  | nil => rfl
  | cons c rest =>
      have hspace : c ≠ ' ' := fun hsame => hfront.1 (hsame ▸ rfl)
      have htab : c ≠ '\t' := fun hsame => hfront.2 (hsame ▸ rfl)
      simp [LineHead.takeAll, headAt, countWhile, hspace, htab]

structure EndsText (source tail : Text) (read : LeafRead) : Prop where
  leaf : ∃ tokens, read.leaf = .paragraph false tokens
  position : source.drop read.position = tail
  rest : read.rest = tail

theorem read_line_located (extensions : Extensions) (hcarriage : '\r' ∉ source)
    {line behind : Text} (hfeed : '\n' ∉ line) {position : Nat}
    (hlocated : source.drop position = line ++ '\n' :: behind)
    (tokens : List Token) :
    (TokenLine.read extensions tokens position (line ++ '\n' :: behind)).rest = behind ∧
      source.drop (TokenLine.read extensions tokens position (line ++ '\n' :: behind)).position
        = behind := by
  have hinner : '\r' ∉ line ++ '\n' :: behind :=
    fun hmem => hcarriage (List.mem_of_mem_drop (hlocated ▸ hmem))
  obtain ⟨hposition, hrest⟩ := TokenLine.read_line extensions tokens position hinner
  rw [lineLength_line hfeed] at hposition hrest
  refine ⟨hrest.trans (drop_line line behind), ?_⟩
  rw [hposition, ← List.drop_drop, hlocated, drop_line]

theorem paragraphFrom_stops {tail text : Text} (hstops : Stops extensions containers tail)
    {tokens : List Token} {position : Nat}
    (hrest : (TokenLine.read extensions tokens position text).rest = tail) (start fuel : Nat) :
    LeafReader.paragraphFrom extensions containers start (fuel + 1) tokens position text =
      ⟨.paragraph false
          (LeafReader.pushBackslash (TokenLine.read extensions tokens position text)).reverse,
        .upTo start (TokenLine.read extensions tokens position text).position,
        (TokenLine.read extensions tokens position text).position, tail⟩ := by
  obtain ⟨inside, taken, next, hwithin, hfront, hunderlines, -, hends⟩ := hstops
  have hcolumns := takeExactly_headAt hfront taken 4
  have hheading : (if inside && !decide (4 = 0) then underline? (headAt taken next).rest
      else none) = none := by
    cases inside with
    | false => rfl
    | true => exact hunderlines rfl
  have hstop : (!decide (4 = 0)
        && interrupts extensions containers inside (headAt taken next).rest
      || (headAt taken next).takeAll.atEol) = true := by
    rw [takeAll_headAt hfront]
    rcases hends with hinterrupted | hatEol
    · exact Bool.or_eq_true_iff.mpr (.inl hinterrupted)
    · exact Bool.or_eq_true_iff.mpr (.inr hatEol)
  rw [LeafReader.paragraphFrom]
  simp only [hrest, hwithin, hcolumns, hheading, hstop, if_true]

theorem paragraphFrom_continues (hfits : Fits levels containers) {next behind text : Text}
    (hone : OneLine next) (hcontinues : continuesParagraph extensions next = true)
    (hseparator : NoSeparator extensions containers behind) {tokens : List Token} {position : Nat}
    (hrest : (TokenLine.read extensions tokens position text).rest
      = carry levels next ++ '\n' :: behind) (start fuel : Nat) :
    ∃ front, carry levels next = front ++ next ∧
      LeafReader.paragraphFrom extensions containers start (fuel + 1) tokens position text =
        LeafReader.paragraphFrom extensions containers start fuel
          ((TokenLine.read extensions tokens position text).lineBreak.toList
            ++ (TokenLine.read extensions tokens position text).tokens)
          ((TokenLine.read extensions tokens position text).position + front.length)
          (next ++ '\n' :: behind) := by
  obtain ⟨front, hshape, hwithin⟩ := within_carry hfits next behind
  obtain ⟨hvisible, hunderline, -⟩ := continuesParagraph_facts hcontinues
  have hvisibleFront := hvisible.front ('\n' :: behind)
  have hcolumns := takeExactly_headAt hvisibleFront front.length 4
  have hheading : (if true && !decide (4 = 0) then
      underline? (headAt front.length (next ++ '\n' :: behind)).rest
      else none) = none := (hone.same _).underline?.symm.trans hunderline
  have hgoes : (!decide (4 = 0)
        && interrupts extensions containers true
          (headAt front.length (next ++ '\n' :: behind)).rest
      || (headAt front.length (next ++ '\n' :: behind)).takeAll.atEol) = false := by
    rw [takeAll_headAt hvisibleFront, hvisible.atEol, Bool.or_false]
    exact interrupts_continues hone hcontinues hseparator
  refine ⟨front, hshape, ?_⟩
  rw [LeafReader.paragraphFrom]
  simp only [hrest, hwithin, hcolumns, hheading, hgoes, Bool.false_eq_true, if_false]
  rw [takeAll_headAt hvisibleFront]
  rfl

theorem Stops.separator {tail : Text} (hstops : Stops extensions containers tail) :
    NoSeparator extensions containers tail := by
  obtain ⟨inside, taken, text, -, -, -, hseparator, -⟩ := hstops
  exact hseparator

theorem paragraphFrom_spec (hfits : Fits levels containers) (hcarriage : '\r' ∉ source)
    {later : List Text} (hgoesOn : ∀ line ∈ later, continuesParagraph extensions line = true)
    (hones : ∀ line ∈ later, OneLine line) {tail : Text} (hstops : Stops extensions containers tail)
    {line : Text} (hfeed : '\n' ∉ line) {fuel position : Nat} (start : Nat)
    (tokens : List Token)
    (hlocated : source.drop position = line ++ '\n' :: (below levels later ++ tail))
    (henough : later.length < fuel) :
    EndsText source tail (LeafReader.paragraphFrom extensions containers start fuel tokens position
      (line ++ '\n' :: (below levels later ++ tail))) := by
  -- One line of tokens at a time: the tail stops the last one, the others are gone on from.
  induction later generalizing line fuel position tokens with
  | nil =>
      obtain ⟨fuel, rfl⟩ := Nat.exists_eq_succ_of_ne_zero (Nat.ne_zero_of_lt henough)
      rw [below_nil, List.nil_append] at hlocated ⊢
      obtain ⟨hrest, hended⟩ := read_line_located extensions hcarriage hfeed hlocated tokens
      rw [paragraphFrom_stops hstops hrest]
      exact ⟨⟨_, rfl⟩, hended, rfl⟩
  | cons next later ih =>
      obtain ⟨fuel, rfl⟩ := Nat.exists_eq_succ_of_ne_zero (Nat.ne_zero_of_lt henough)
      rw [below_cons, List.append_assoc, List.cons_append] at hlocated ⊢
      obtain ⟨hrest, hended⟩ := read_line_located extensions hcarriage hfeed hlocated tokens
      have hone := hones next List.mem_cons_self
      have hcontinues := hgoesOn next List.mem_cons_self
      have hgoesOn := fun line hmem => hgoesOn line (List.mem_cons_of_mem next hmem)
      have hones := fun line hmem => hones line (List.mem_cons_of_mem next hmem)
      have hseparator := noSeparator_below hfits hgoesOn hones hstops.separator
      obtain ⟨front, hshape, hread⟩ := paragraphFrom_continues hfits hone hcontinues hseparator
        hrest start fuel
      rw [hread]
      refine ih hgoesOn hones hone.1 _ ?_ (Nat.lt_of_succ_lt_succ henough)
      rw [← List.drop_drop, hended, hshape, List.append_assoc]
      exact List.drop_left

theorem startsParagraph_plain {line : Text} (hone : OneLine line)
    (h : startsParagraph extensions line = true) (behind : Text) :
    PlainFront extensions (line ++ '\n' :: behind) := by
  simp only [startsParagraph, Bool.and_eq_true, Bool.not_eq_true'] at h
  obtain ⟨⟨⟨⟨⟨hvisible, -⟩, -⟩, -⟩, hhtml⟩, hmetadata⟩ := h
  have hvisible := visible_of_isVisible hvisible
  refine ⟨hvisible.front _, metadata_line hone.1 hmetadata behind, fun htag => ?_⟩
  rw [hvisible.head?] at htag
  rw [drop_one_visible hvisible, ← ((hone.drop 1).same behind).htmlEnd?]
  simpa [htag] using hhtml

theorem startsParagraph_enter {line : Text} (hone : OneLine line)
    (h : startsParagraph extensions line = true) (fuel taken : Nat) (behind : Text)
    (reader : BlockReader) :
    enter fuel (headAt taken (line ++ '\n' :: behind)) reader
      = BlockReader.readLeaf (headAt taken (line ++ '\n' :: behind)) reader := by
  simp only [startsParagraph, isMarked, Bool.and_eq_true, Bool.not_eq_true', Bool.or_eq_false_iff,
    decide_eq_false_iff_not, Option.isNone_iff_eq_none] at h
  obtain ⟨⟨⟨⟨⟨hvisible, -, hquote⟩, hitem⟩, hlabels⟩, -⟩, -⟩ := h
  have hvisible := visible_of_isVisible hvisible
  have hunmarked : itemStart? (line ++ '\n' :: behind) = none := by
    cases hfound : itemStart? (line ++ '\n' :: behind) with
    | none => rfl
    | some marker =>
        obtain ⟨empty, hstart⟩ := itemStart?_same hone behind hfound
        rw [hitem] at hstart
        cases hstart
  refine enter_leaf (hvisible.front _) (footnote?_none hone hlabels taken behind reader)
    (itemMarker?_none hunmarked taken) ?_ (hvisible.blankLine? _) fuel
  rw [hvisible.head?]
  exact hquote

theorem startsParagraph_unmarked {line : Text} (hone : OneLine line)
    (h : startsParagraph extensions line = true) (behind : Text) :
    rule? (line ++ '\n' :: behind) = none ∧ headingLevel? (line ++ '\n' :: behind) = none ∧
      fence? (line ++ '\n' :: behind) = none ∧ labelsNothing line = true := by
  simp only [startsParagraph, isMarked, Bool.and_eq_true, Bool.not_eq_true', Bool.or_eq_false_iff,
    Option.isSome_eq_false_iff, Option.isNone_iff_eq_none] at h
  obtain ⟨⟨⟨⟨⟨-, ⟨⟨hrule, hheading⟩, hfence⟩, -⟩, -⟩, hlabels⟩, -⟩, -⟩ := h
  have hsame := hone.same behind
  exact ⟨hsame.rule?.symm.trans hrule, hsame.headingLevel?.symm.trans hheading,
    hsame.fence?.symm.trans hfence, hlabels⟩

theorem readParagraph_text (h : AtLeaf extensions source levels draft reader) {line : Text}
    (hone : OneLine line) (hlabels : labelsNothing line = true) (fuel taken : Nat) (behind : Text) :
    BlockReader.readParagraph (fuel + 1) (headAt taken (line ++ '\n' :: behind)) reader
      = BlockReader.finishLeaf
          (LeafReader.paragraph extensions reader.containers none (reader.position + taken)
            (line ++ '\n' :: behind)) reader := by
  have hscanned := scan?_none hone hlabels reader.extensions reader.containers
    (reader.position + taken) behind
  have htext : (headAt taken (line ++ '\n' :: behind)).rest = line ++ '\n' :: behind := rfl
  have htaken : (headAt taken (line ++ '\n' :: behind)).taken = taken := rfl
  have hsame : { reader with task := none } = reader := by
    obtain ⟨_, _, _, _, _, _, _, task, _, _⟩ := reader
    cases h.ready.task
    rfl
  rw [BlockReader.readParagraph]
  simp only [htext, htaken, hscanned]
  rw [BlockReader.readText, hsame, h.ready.task, h.ready.extensions]
  rfl

theorem paragraph_eq {line next : Text} (hone : OneLine line)
    (hseparator : NoSeparator extensions containers next) (position : Nat) :
    LeafReader.paragraph extensions containers none position (line ++ '\n' :: next)
      = LeafReader.paragraphFrom extensions containers position
          ((line ++ '\n' :: next).length + 1) [] position (line ++ '\n' :: next) := by
  have hnoTable : (if (extensions.tables && !LeafReader.endsEscaped (line ++ '\n' :: next)) = true
      then Table.head? containers true (line ++ '\n' :: next) else none) = none := by
    split
    · next htables =>
        rw [Bool.and_eq_true] at htables
        exact head?_noSeparator hone hseparator htables.1 true
    · rfl
  simp only [LeafReader.paragraph, hnoTable]
  rfl

theorem length_le_below (levels : List Level) (lines : List Text) :
    lines.length ≤ (below levels lines).length := by
  induction lines with
  | nil => simp
  | cons line lines ih =>
      rw [below_cons, List.length_append, List.length_cons, List.length_cons]
      omega

theorem enter_text (h : AtLeaf extensions source levels draft (reader.finishList reader.position))
    {first next : Text} (hone : OneLine first) (hstarts : startsParagraph extensions first = true)
    (hseparator : NoSeparator extensions (reader.finishList reader.position).containers next)
    (fuel taken : Nat) :
    enter fuel (headAt taken (first ++ '\n' :: next)) reader
      = BlockReader.finishLeaf
          (LeafReader.paragraphFrom extensions (reader.finishList reader.position).containers
            (reader.position + taken) ((first ++ '\n' :: next).length + 1) []
            (reader.position + taken) (first ++ '\n' :: next))
          (reader.finishList reader.position) := by
  obtain ⟨hrule, hheading, hfence, hlabels⟩ := startsParagraph_unmarked hone hstarts next
  have hstays := BlockReader.stays_finishList reader.position reader
  have hplain := startsParagraph_plain hone hstarts next
  rw [startsParagraph_enter hone hstarts, readLeaf_eq h hplain, hrule, hheading, hfence]
  simp only [Option.elim_none]
  rw [readParagraph_text h hone hlabels, hstays.position, paragraph_eq hone hseparator]

/-- The lines of a settled paragraph are read as a paragraph, up to what stops it. -/
theorem Reads.text (h : Reads extensions source levels draft more reader) (hlist : IsList more)
    (hcarriage : '\r' ∉ source) {first : Text} {later : List Text}
    (hsettled : settledText extensions (first :: later) = true)
    (hones : ∀ line ∈ first :: later, OneLine line) {tail : Text}
    (hstops : ∀ containers, Fits levels containers → Stops extensions containers tail)
    {taken : Nat}
    (hlocated : source.drop (reader.position + taken)
      = first ++ '\n' :: (below levels later ++ tail)) (fuel : Nat) :
    Reads extensions source levels (draft.append (place levels).paragraph) []
        (enter fuel (headAt taken (first ++ '\n' :: (below levels later ++ tail))) reader) ∧
      (enter fuel (headAt taken (first ++ '\n' :: (below levels later ++ tail))) reader).rest
        = tail := by
  simp only [settledText, Bool.and_eq_true, List.all_eq_true] at hsettled
  obtain ⟨hstarts, hgoesOn⟩ := hsettled
  have hone := hones first List.mem_cons_self
  have hones := fun line hmem => hones line (List.mem_cons_of_mem first hmem)
  have hatLeaf := h.atLeaf hlist reader.position
  obtain ⟨containers, hfits, hsame⟩ := hatLeaf.stands
  rw [List.append_nil] at hsame
  have hstops := hstops containers hfits
  have hseparator := noSeparator_below hfits hgoesOn hones hstops.separator
  have henough : later.length < (first ++ '\n' :: (below levels later ++ tail)).length + 1 := by
    have hlengths := length_le_below levels later
    simp only [List.length_append, List.length_cons]
    omega
  obtain ⟨⟨tokens, hleaf⟩, hended, hrest⟩ := paragraphFrom_spec hfits hcarriage hgoesOn hones hstops
    hone.1 (reader.position + taken) [] hlocated henough
  rw [enter_text hatLeaf hone hstarts (hsame ▸ hseparator), hsame]
  refine ⟨?_, hrest⟩
  have hfinished := hatLeaf.finishLeaf (hended.trans hrest.symm)
  rwa [hleaf] at hfinished

end Canonmark.Printed
