import Canonmark.Source.Line
import Canonmark.Source.RawHtml
import Mathlib.Data.List.TakeWhile

/-!
# Texts with the same first line

What starts a block of HTML, and how the block ends, is told by the line it starts on alone.
-/

namespace Canonmark.Source

theorem eol?_cons {c : Char} (hn : c ≠ '\n') (hcr : c ≠ '\r') (text : Text) :
    Source.eol? (c :: text) = none := by
  unfold Source.eol?
  split <;> simp_all

theorem isBlankLine_cons {c : Char} {rest : Text} (hcr : c ≠ '\r') :
    Source.isBlankLine (c :: rest) =
      (c = '\n' || (Ascii.isBlank c && Source.isBlankLine rest)) := by
  by_cases hn : c = '\n'
  · subst hn
    rfl
  · by_cases hblank : Ascii.isBlank c = true
    · simp [Source.isBlankLine, Source.blankLine?, hn, hblank]
    · simp [Source.isBlankLine, Source.blankLine?, hn, hblank, eol?_cons hn hcr]

/-- Texts with the same first line. -/
inductive SameLine : Text → Text → Prop
  | nil : SameLine [] []
  | newline (first second : Text) : SameLine ('\n' :: first) ('\n' :: second)
  | cons {c : Char} {first second : Text} (hn : c ≠ '\n') (hcr : c ≠ '\r')
      (h : SameLine first second) : SameLine (c :: first) (c :: second)

namespace SameLine

variable {first second : Text}

theorem head? (h : SameLine first second) : first.head? = second.head? := by
  cases h <;> rfl

theorem eol? (h : SameLine first second) : Source.eol? first = Source.eol? second := by
  cases h with
  | nil => rfl
  | newline first second => rfl
  | cons hn hcr h => rw [eol?_cons hn hcr, eol?_cons hn hcr]

theorem takeWhile (h : SameLine first second) {p : Char → Bool} (hp : p '\n' = false) :
    first.takeWhile p = second.takeWhile p := by
  induction h with
  | nil => rfl
  | newline first second => simp [hp]
  | cons hn hcr h ih => simp only [List.takeWhile_cons, ih]

theorem countWhile (h : SameLine first second) {p : Char → Bool} (hp : p '\n' = false) :
    Source.countWhile p first = Source.countWhile p second := by
  rw [Source.countWhile, Source.countWhile, h.takeWhile hp]

theorem drop_takeWhile (h : SameLine first second) {p : Char → Bool} (hp : p '\n' = false) :
    SameLine (first.drop (first.takeWhile p).length) (second.drop (second.takeWhile p).length) := by
  induction h with
  | nil => exact .nil
  | newline first second => simpa [hp] using .newline first second
  | @cons c first second hn hcr h ih =>
      by_cases hc : p c = true
      · simpa [hc] using ih
      · simpa [hc] using .cons hn hcr h

theorem isBlankLine (h : SameLine first second) :
    Source.isBlankLine first = Source.isBlankLine second := by
  induction h with
  | nil => rfl
  | newline first second => rfl
  | cons hn hcr h ih => rw [isBlankLine_cons hcr, isBlankLine_cons hcr, ih]

theorem isPrefixOf (h : SameLine first second) {needle : Text} (hneedle : '\n' ∉ needle) :
    needle.isPrefixOf first = needle.isPrefixOf second := by
  induction h generalizing needle with
  | nil => rfl
  | newline first second =>
      cases needle with
      | nil => rfl
      | cons d needle =>
          have hd : d ≠ '\n' := Ne.symm (not_or.mp (mt List.mem_cons.mpr hneedle)).1
          simp [List.isPrefixOf, beq_false_of_ne hd]
  | cons hn hcr h ih =>
      cases needle with
      | nil => rfl
      | cons d needle =>
          simp [List.isPrefixOf, ih (not_or.mp (mt List.mem_cons.mpr hneedle)).2]

theorem equalsIgnoringCase (h : SameLine first second) {name : Text}
    (hname : '\n' ∉ name.map Ascii.lower) :
    Ascii.equalsIgnoringCase (first.take name.length) name =
        Ascii.equalsIgnoringCase (second.take name.length) name ∧
      (Ascii.equalsIgnoringCase (first.take name.length) name = true →
        SameLine (first.drop name.length) (second.drop name.length)) := by
  induction name generalizing first second with
  | nil => exact ⟨rfl, fun _ => h⟩
  | cons d name ih =>
      obtain ⟨hd, hname⟩ := not_or.mp (mt List.mem_cons.mpr hname)
      cases h with
      | nil => exact ⟨rfl, fun heq => by simp [Ascii.equalsIgnoringCase] at heq⟩
      | newline first second =>
          have hlower : Ascii.lower '\n' = '\n' := rfl
          simp [Ascii.equalsIgnoringCase, hlower, beq_false_of_ne hd]
      | @cons c first second hn hcr h =>
          obtain ⟨hside, hdrop⟩ := ih h hname
          simp only [Ascii.equalsIgnoringCase, List.length_cons, List.take_succ_cons,
            List.drop_succ_cons, List.map_cons, List.cons_beq_cons] at hside hdrop ⊢
          refine ⟨by rw [hside], fun heq => hdrop ?_⟩
          simp only [Bool.and_eq_true] at heq
          exact heq.2

end SameLine

/-! ## Starts of blocks of HTML -/

theorem SameLine.literalEnd? {first second : Text} (h : SameLine first second) :
    HtmlBlock.literalEnd? first = HtmlBlock.literalEnd? second := by
  have hnames : ∀ name ∈ HtmlBlock.literalElements, '\n' ∉ name.map Ascii.lower := by decide
  simp only [HtmlBlock.literalEnd?]
  generalize HtmlBlock.literalElements = names at hnames
  induction names with
  | nil => rfl
  | cons name names ih =>
      have ih := ih fun other hother => hnames other (List.mem_cons_of_mem _ hother)
      obtain ⟨hside, hdrop⟩ := h.equalsIgnoringCase (hnames name List.mem_cons_self)
      rw [List.findSome?_cons, List.findSome?_cons, ih, hside]
      cases hfound : Ascii.equalsIgnoringCase (second.take name.length) name with
      | false => rfl
      | true =>
          have hdrop := hdrop (hside.trans hfound)
          generalize first.drop name.length = behind at hdrop
          generalize second.drop name.length = behind' at hdrop
          cases hdrop <;> rfl

theorem SameLine.endMark? {first second : Text} (h : SameLine first second) :
    HtmlBlock.endMark? first = HtmlBlock.endMark? second := by
  have hcdata := @SameLine.isPrefixOf _ _ h "![CDATA[".toList (by decide)
  unfold HtmlBlock.endMark?
  rw [h.literalEnd?, hcdata]
  generalize "![CDATA[".toList.isPrefixOf second = cdata
  congr 1
  cases h with
  | nil => rfl
  | newline first second => rfl
  | @cons c first second hn hcr h =>
      by_cases hquestion : c = '?'
      · subst hquestion
        rfl
      by_cases hbang : c = '!'
      · subst hbang
        cases h with
        | nil => rfl
        | newline first second => simp
        | @cons d first second hn' hcr' h =>
            by_cases hhyphen : d = '-'
            · subst hhyphen
              cases h with
              | nil => rfl
              | newline first second => simp
              | @cons d first second hn' hcr' h =>
                  by_cases hhyphen : d = '-'
                  · subst hhyphen
                    rfl
                  · simp [hhyphen]
            · simp [hhyphen]
      · simp [hquestion, hbang]

theorem SameLine.startsElement {first second : Text} (h : SameLine first second) :
    HtmlBlock.startsElement first = HtmlBlock.startsElement second := by
  have htail : SameLine (if first.head? = some '/' then first.drop 1 else first)
      (if second.head? = some '/' then second.drop 1 else second) := by
    rw [h.head?]
    split
    · next hslash =>
        cases h with
        | nil => exact .nil
        | newline first second => cases hslash
        | cons hn hcr h => exact h
    · exact h
  simp only [HtmlBlock.startsElement]
  generalize (if first.head? = some '/' then first.drop 1 else first) = tail at htail
  generalize (if second.head? = some '/' then second.drop 1 else second) = tail' at htail
  have hname : Ascii.isLetterOrDigit '\n' = false := rfl
  have hbehind := htail.drop_takeWhile hname
  rw [htail.takeWhile hname] at hbehind ⊢
  congr 1
  generalize tail.drop _ = behind at hbehind
  generalize tail'.drop _ = behind' at hbehind
  cases hbehind with
  | nil => rfl
  | newline first second => rfl
  | @cons c first second hn hcr h =>
      by_cases hslash : c = '/'
      · subst hslash
        cases h with
        | nil => rfl
        | newline first second => rfl
        | @cons d first second hn' hcr' h =>
            by_cases hd : d = '>'
            · subst hd
              rfl
            · simp [hd]
      · simp [hslash]

theorem SameLine.interrupts {first second : Text} (h : SameLine first second) :
    HtmlBlock.interrupts first = HtmlBlock.interrupts second := by
  rw [HtmlBlock.interrupts, HtmlBlock.interrupts, h.endMark?, h.startsElement]

structure SameReading (first second : Reading) : Prop where
  rest : SameLine first.rest second.rest
  length : first.length = second.length

theorem isUnquotedChar_newline : Tag.isUnquotedChar '\n' = false := rfl

/-- A reader of tags on a line that finds what it found on the same line, and goes no way back. -/
def Finds (found : Option Reading) (result second : Reading) : Prop :=
  ∃ other, found = some other ∧ SameReading result other ∧ other.rest.length ≤ second.rest.length

theorem SameLine.symm {first second : Text} (h : SameLine first second) :
    SameLine second first := by
  induction h with
  | nil => exact .nil
  | newline first second => exact .newline second first
  | cons hn hcr h ih => exact .cons hn hcr ih

namespace SameReading

variable {first second result : Reading}

theorem keepWhile (h : SameReading first second) {p : Char → Bool} (hp : p '\n' = false) :
    SameReading (first.keepWhile p) (second.keepWhile p) :=
  ⟨h.rest.drop_takeWhile hp, by simp [Reading.keepWhile, Reading.keep, h.length,
  h.rest.countWhile hp]⟩

theorem keep_one (h : SameReading first second) {c : Char} (hc : c ≠ '\n') {tail : Text}
    (hrest : first.rest = c :: tail) :
    SameReading (first.keep 1) (second.keep 1) ∧ ∃ tail', second.rest = c :: tail' := by
  obtain ⟨hline, hlength⟩ := h
  rw [hrest] at hline
  generalize htail : second.rest = rest at hline
  cases hline with
  | newline first second => exact absurd rfl hc
  | cons hn hcr hline =>
      exact ⟨⟨by simpa [Reading.keep, hrest, htail] using hline, by simp [Reading.keep, hlength]⟩,
        _, rfl⟩

theorem length_keep (reading : Reading) (n : Nat) :
    (reading.keep n).rest.length ≤ reading.rest.length := by
  simp [Reading.keep]

theorem spaces? (h : SameReading first second) {fuel : Nat}
    (hfound : Tag.spaces? none (fuel + 1) first = some result) (fuel' : Nat) :
    Finds (Tag.spaces? none (fuel' + 1) second) result second := by
  have hkept := h.keepWhile (show Ascii.isBlank '\n' = false from rfl)
  have heol := hkept.rest.eol?
  simp only [Tag.spaces?, heol] at hfound ⊢
  split at hfound
  · next heq =>
      cases hfound
      exact ⟨_, rfl, hkept, length_keep _ _⟩
  · next heq =>
      cases hfound
      exact ⟨_, rfl, hkept, length_keep _ _⟩
  · simp [Tag.lineBreak?] at hfound

theorem quotedValue? {quote : Char} (hquote : quote ≠ '\n') (h : SameReading first second)
    {fuel fuel' : Nat} (hfound : Tag.quotedValue? none quote fuel first = some result)
    (hfuel : second.rest.length < fuel') :
    Finds (Tag.quotedValue? none quote fuel' second) result second := by
  induction fuel generalizing first second fuel' with
  | zero => cases hfound
  | succ fuel ih =>
      cases fuel' with
      | zero => simp at hfuel
      | succ fuel' =>
          rw [Tag.quotedValue?] at hfound
          split at hfound
          · cases hfound
          · next c tail hrest =>
              by_cases hc : c = '\n'
              · subst hc
                simp [hrest, Ne.symm hquote, Source.eol?, Tag.lineBreak?] at hfound
              obtain ⟨hkept, tail', hrest'⟩ := h.keep_one hc hrest
              by_cases hcquote : c = quote
              · subst hcquote
                simp only [if_true, Option.some.injEq] at hfound
                subst hfound
                exact ⟨second.keep 1, by simp [Tag.quotedValue?, hrest'], hkept, length_keep _ _⟩
              · have heol := h.rest.eol?
                rw [if_neg hcquote] at hfound
                cases hend : Source.eol? first.rest with
                | some n => simp [hend, Tag.lineBreak?] at hfound
                | none =>
                    simp only [hend] at hfound
                    have hshort : (second.keep 1).rest.length < fuel' := by
                      simp only [Reading.keep, hrest', List.drop_succ_cons, List.drop_zero]
                      simp only [hrest', List.length_cons] at hfuel
                      omega
                    obtain ⟨other, hother, hsame, hle⟩ := ih hkept hfound hshort
                    refine ⟨other, ?_, hsame, hle.trans (length_keep _ _)⟩
                    rw [hend] at heol
                    simp only [hrest'] at heol
                    simp [Tag.quotedValue?, hrest', hcquote, ← heol, hother]

theorem value? (h : SameReading first second) {fuel fuel' : Nat}
    (hfound : Tag.value? none fuel first = some result) (hfuel : second.rest.length < fuel') :
    Finds (Tag.value? none fuel' second) result second := by
  rw [Tag.value?] at hfound
  split at hfound
  · cases hfound
  next c tail hrest =>
  by_cases hc : c = '\n'
  · subst hc
    simp [isUnquotedChar_newline] at hfound
  obtain ⟨hkept, tail', hrest'⟩ := h.keep_one hc hrest
  by_cases hquote : (decide (c = '"') || decide (c = '\'')) = true
  · rw [if_pos hquote] at hfound
    obtain ⟨other, hother, hsame, hle⟩ :=
      hkept.quotedValue? hc hfound ((length_keep _ 1).trans_lt hfuel)
    exact ⟨other, by simp only [Tag.value?, hrest', hquote, if_true, hother], hsame,
      hle.trans (length_keep _ _)⟩
  · rw [if_neg hquote] at hfound
    obtain ⟨hunquoted, heq⟩ := Option.ite_none_right_eq_some.mp hfound
    cases heq
    exact ⟨second.keepWhile Tag.isUnquotedChar, by
      simp only [Tag.value?, hrest', if_neg hquote, hunquoted, if_true],
      h.keepWhile isUnquotedChar_newline, length_keep _ _⟩

theorem attribute? (h : SameReading first second) {fuel fuel' : Nat}
    (hfound : Tag.attribute? none (fuel + 1) first = some result)
    (hfuel : second.rest.length < fuel' + 1) :
    Finds (Tag.attribute? none (fuel' + 1) second) result (second.keep 1) := by
  rw [Tag.attribute?] at hfound
  split at hfound
  · cases hfound
  next c tail hrest =>
  obtain ⟨hname, hfound⟩ := Option.ite_none_right_eq_some.mp hfound
  have hc : c ≠ '\n' := by rintro rfl; cases hname
  obtain ⟨hkept, tail', hrest'⟩ := h.keep_one hc hrest
  have hnamed := hkept.keepWhile (show Tag.isNameChar '\n' = false from rfl)
  simp only at hfound
  split at hfound
  · cases hfound
  next spaced hspaces =>
  obtain ⟨spaced', hspaces', hsame, hle⟩ := hnamed.spaces? hspaces fuel'
  have hle := hle.trans (length_keep _ _)
  split at hfound
  · next tail hequals =>
      obtain ⟨hbehind, tail', hequals'⟩ := hsame.keep_one (by decide) hequals
      obtain ⟨between, hbetween, hvalue⟩ := Option.bind_eq_some_iff.mp hfound
      obtain ⟨between', hbetween', hsame', hle'⟩ := hbehind.spaces? hbetween fuel'
      have hle' := (hle'.trans (length_keep _ _)).trans hle
      obtain ⟨other, hother, hresult, hle''⟩ :=
        hsame'.value? hvalue ((hle'.trans (length_keep _ _)).trans_lt hfuel)
      refine ⟨other, ?_, hresult, hle''.trans hle'⟩
      rw [Tag.attribute?, hrest']
      simp only [hname, if_true, hspaces', hequals', hbetween', hother, Option.bind_some]
  · next hno =>
      have heq := Option.some.inj hfound
      subst heq
      have hno' : ∀ tail, spaced'.rest ≠ '=' :: tail := by
        intro tail heq
        obtain ⟨-, tail', heq'⟩ := keep_one ⟨hsame.rest.symm, hsame.length.symm⟩ (by decide) heq
        exact hno tail' heq'
      refine ⟨(second.keep 1).keepWhile Tag.isNameChar, ?_, hnamed, length_keep _ _⟩
      rw [Tag.attribute?, hrest']
      simp only [hname, if_true, hspaces']

theorem attributes? (h : SameReading first second) {all all' fuel fuel' : Nat}
    (hfound : Tag.attributes? none (all + 1) fuel first = some result)
    (hall : second.rest.length < all' + 1) (hfuel : second.rest.length < fuel') :
    Finds (Tag.attributes? none (all' + 1) fuel' second) result second := by
  induction fuel generalizing first second fuel' with
  | zero => cases hfound
  | succ fuel ih =>
      cases fuel' with
      | zero => simp at hfuel
      | succ fuel' =>
          rw [Tag.attributes?] at hfound
          split at hfound
          · cases hfound
          next spaced hspaces =>
          obtain ⟨spaced', hspaces', hsame, hle⟩ := h.spaces? hspaces all'
          split at hfound
          · cases hfound
          next c tail hrest =>
          have hc : c ≠ '\n' := by
            rintro rfl
            simp [Tag.attribute?, hrest, Ascii.isLetter] at hfound
          obtain ⟨hkept, tail', hrest'⟩ := hsame.keep_one hc hrest
          by_cases hend : (decide (c = '/') || decide (c = '>')) = true
          · simp only [hend, if_true, Option.some.injEq] at hfound
            subst hfound
            exact ⟨spaced', by simp only [Tag.attributes?, hspaces', hrest', hend, if_true], hsame,
              hle⟩
          rw [if_neg hend] at hfound
          obtain ⟨hmoved, hfound⟩ := Option.ite_none_left_eq_some.mp hfound
          obtain ⟨named, hnamed, hfound⟩ := Option.bind_eq_some_iff.mp hfound
          obtain ⟨named', hnamed', hsame', hle'⟩ := hsame.attribute? hnamed (hle.trans_lt hall)
          have hless : named'.rest.length < spaced'.rest.length := by
            refine hle'.trans_lt ?_
            simp [Reading.keep, hrest']
          obtain ⟨other, hother, hresult, hle''⟩ :=
            ih hsame' hfound (by omega) (show named'.rest.length < fuel' by omega)
          refine ⟨other, ?_, hresult, by omega⟩
          rw [hsame.length, h.length] at hmoved
          simp only [Tag.attributes?, hspaces', hrest', if_neg hend, if_neg hmoved, hnamed',
            Option.bind_some, hother]

end SameReading

theorem SameReading.close? {first second result : Reading} (h : SameReading first second)
    (hfound : Tag.close? first = some result) :
    ∃ other, Tag.close? second = some other ∧ SameReading result other := by
  rw [Tag.close?.eq_def] at hfound
  split at hfound
  · next tail hrest =>
      obtain ⟨hkept, tail', hrest'⟩ := h.keep_one (by decide) hrest
      cases hfound
      exact ⟨second.keep 1, by simp [Tag.close?, hrest'], hkept⟩
  · cases hfound

theorem SameReading.slash {first second : Reading} (h : SameReading first second) :
    SameReading (first.keep (if first.rest.head? = some '/' then 1 else 0))
      (second.keep (if second.rest.head? = some '/' then 1 else 0)) := by
  rw [← h.rest.head?]
  by_cases hslash : first.rest.head? = some '/'
  · obtain ⟨tail, hrest⟩ := List.head?_eq_some_iff.mp hslash
    simpa [hslash] using (h.keep_one (by decide) hrest).1
  · simpa [hslash, Reading.keep] using h

def isNameTail (c : Char) : Bool := Ascii.isLetterOrDigit c || c = '-'

/-- Reads a tag behind its angle bracket and the slash that closing tags have there. -/
def tagFrom? (closing : Bool) (fuel : Nat) (opened : Reading) : Option Reading :=
  if countWhile Ascii.isLetter opened.rest = 0 then none
  else
    let named := (opened.keepWhile Ascii.isLetter).keepWhile isNameTail
    if closing then Tag.close? (named.keepWhile Ascii.isBlank)
    else
      (Tag.attributes? none (fuel + 1) (fuel + 1) named).bind fun reading =>
        Tag.close? (reading.keep (if reading.rest.head? = some '/' then 1 else 0))

def opened (text : Text) : Reading :=
  (Reading.start text).keep (if text.head? = some '/' then 1 else 0)

theorem tagRead?_eq (text : Text) :
    Tag.read? none text = tagFrom? (text.head? = some '/') text.length (opened text) := by
  by_cases hslash : text.head? = some '/' <;>
    simp only [Tag.read?, Source.tagFrom?, opened, hslash, decide_true, if_true] <;> rfl

theorem SameReading.tagFrom? {first second result : Reading} (h : SameReading first second)
    {closing : Bool} {fuel fuel' : Nat}
    (hfound : Source.tagFrom? closing fuel first = some result)
    (hfuel : second.rest.length ≤ fuel') :
    ∃ other, Source.tagFrom? closing fuel' second = some other ∧
      SameReading result other := by
  have hletter : Ascii.isLetter '\n' = false := rfl
  have htail : isNameTail '\n' = false := rfl
  have hnamed := (h.keepWhile hletter).keepWhile htail
  obtain ⟨hname, hfound⟩ := Option.ite_none_left_eq_some.mp hfound
  rw [h.rest.countWhile hletter] at hname
  simp only [Source.tagFrom?, if_neg hname]
  cases closing with
  | true => exact (hnamed.keepWhile rfl).close? hfound
  | false =>
      obtain ⟨reading, hreading, hclose⟩ := Option.bind_eq_some_iff.mp hfound
      have hshort : ((second.keepWhile Ascii.isLetter).keepWhile isNameTail).rest.length <
          fuel' + 1 := Nat.lt_succ_of_le
        (((length_keep _ _).trans (length_keep _ _)).trans hfuel)
      obtain ⟨reading', hreading', hsame, -⟩ := hnamed.attributes? hreading hshort hshort
      obtain ⟨other, hother, hresult⟩ := hsame.slash.close? hclose
      exact ⟨other, by simp only [hreading', Option.bind_some, hother]; rfl, hresult⟩

theorem SameLine.isLoneTag_of {first second : Text} (h : SameLine first second)
    (htag : HtmlBlock.isLoneTag first = true) : HtmlBlock.isLoneTag second = true := by
  have hopened : SameReading (opened first) (opened second) :=
    @SameReading.slash (Reading.start first) (Reading.start second) ⟨h, rfl⟩
  simp only [HtmlBlock.isLoneTag, tagRead?_eq] at htag ⊢
  split at htag
  · next reading hfound =>
      rw [h.head?] at hfound
      have hshort : (opened second).rest.length ≤ second.length := SameReading.length_keep _ _
      obtain ⟨other, hother, hsame⟩ := hopened.tagFrom? hfound hshort
      rw [hother]
      exact hsame.rest.isBlankLine.symm.trans htag
  · cases htag

theorem SameLine.isLoneTag {first second : Text} (h : SameLine first second) :
    HtmlBlock.isLoneTag first = HtmlBlock.isLoneTag second :=
  Bool.eq_iff_iff.mpr ⟨h.isLoneTag_of, h.symm.isLoneTag_of⟩

theorem SameLine.htmlEnd? {first second : Text} (h : SameLine first second) :
    HtmlBlock.end? first = HtmlBlock.end? second := by
  rw [HtmlBlock.end?, HtmlBlock.end?, h.endMark?, h.startsElement, h.isLoneTag]

end Canonmark.Source
