import Canonmark.Proofs.Printed.Settled
import Canonmark.Proofs.Source.SameLine
import Canonmark.Proofs.Text.Basic
import Canonmark.Source.BlockReader

/-!
# Starts of printed lines

What a line starts is told by the line alone, whatever follows it. A settled line of a paragraph
starts nothing, neither a container nor a block of another kind.
-/

namespace Canonmark.Source

def startsContent : Text → Bool
  | [] => true
  | c :: _ => c = ' ' || c = '\t' || c = '\n' || c = '\r'

theorem itemStart?_cons (c : Char) (rest : Text) :
    itemStart? (c :: rest)
      = if isBullet c || c = '.' || c = ')' then
          if startsContent rest then some (c, 0, isEmptyItem rest) else none
        else
          (itemNumber? (c :: rest)).bind fun found =>
            if startsContent ((c :: rest).drop found.1) then
              some (found.2.1, found.2.2, isEmptyItem ((c :: rest).drop found.1))
            else none := by
  simp only [itemStart?]
  by_cases hbullet : isBullet c = true
  · simp [hbullet]
    rfl
  · by_cases hdelimiter : c = '.' ∨ c = ')'
    · simp [hbullet, hdelimiter]
      rfl
    · simp [hbullet, hdelimiter]
      rfl

namespace SameLine

variable {first second : Text}

theorem line {line : Text} (hfeed : '\n' ∉ line) (hcarriage : '\r' ∉ line) (first second : Text) :
    SameLine (line ++ '\n' :: first) (line ++ '\n' :: second) := by
  induction line with
  | nil => exact .newline first second
  | cons c line ih =>
      simp only [List.mem_cons, not_or] at hfeed hcarriage
      exact .cons (Ne.symm hfeed.1) (Ne.symm hcarriage.1) (ih hfeed.2 hcarriage.2)

theorem drop_countWhile (h : SameLine first second) {p : Char → Bool} (hp : p '\n' = false) :
    SameLine (first.drop (Source.countWhile p first)) (second.drop (Source.countWhile p second)) :=
  h.drop_takeWhile hp

theorem rule? (h : SameLine first second) : Source.rule? first = Source.rule? second := by
  cases h with
  | nil => rfl
  | newline first second => rfl
  | @cons c first second hn hcr h =>
      have hsame := SameLine.cons hn hcr h
      have hfeed : (decide ('\n' = c) || decide ('\n' = ' ') || decide ('\n' = '\t')) = false := by
        simp [Ne.symm hn]
      have hline := hsame.takeWhile (p := fun d => d = c || d = ' ' || d = '\t') hfeed
      have hbehind := hsame.drop_takeWhile (p := fun d => d = c || d = ' ' || d = '\t') hfeed
      simp only [Source.rule?]
      rw [hline] at hbehind ⊢
      rw [hbehind.eol?]

theorem headingLevel? (h : SameLine first second) :
    Source.headingLevel? first = Source.headingLevel? second := by
  have hbehind := @drop_countWhile _ _ h (· = '#') rfl
  have hcount := @SameLine.countWhile _ _ h (· = '#') rfl
  simp only [Source.headingLevel?]
  rw [hcount] at hbehind ⊢
  generalize first.drop _ = text at hbehind
  generalize second.drop _ = text' at hbehind
  cases hbehind <;> rfl

theorem take_lineLength (h : SameLine first second) :
    first.take (lineLength first) = second.take (lineLength second) := by
  induction h with
  | nil => rfl
  | newline first second => rfl
  | cons hn hcr h ih => simp [lineLength, hn, ih]

theorem fence? (h : SameLine first second) : Source.fence? first = Source.fence? second := by
  cases h with
  | nil => rfl
  | newline first second => rfl
  | @cons c first second hn hcr h =>
      have hsame := SameLine.cons hn hcr h
      have hfeed : decide ('\n' = c) = false := by simp [Ne.symm hn]
      have hcount := hsame.countWhile (p := fun d => d = c) hfeed
      have hbehind := hsame.drop_countWhile (p := fun d => d = c) hfeed
      simp only [Source.fence?]
      rw [hcount] at hbehind ⊢
      rw [hbehind.take_lineLength]

theorem closingFence? (h : SameLine first second) {c : Char} (hc : c ≠ '\n') (size : Nat) :
    Source.closingFence? c size first = Source.closingFence? c size second := by
  have hfeed : decide ('\n' = c) = false := by simp [Ne.symm hc]
  have hcount := h.countWhile (p := fun d => d = c) hfeed
  have hbehind := h.drop_countWhile (p := fun d => d = c) hfeed
  have hspace : decide ('\n' = ' ') = false := rfl
  have hspaces := hbehind.countWhile (p := fun d => d = ' ') hspace
  have hlast := hbehind.drop_countWhile (p := fun d => d = ' ') hspace
  have hempty : first.isEmpty = second.isEmpty := by cases h <;> rfl
  rw [List.drop_drop, List.drop_drop] at hlast
  simp only [Source.closingFence?]
  rw [hcount] at hspaces hlast ⊢
  rw [hspaces] at hlast ⊢
  rw [hempty, hlast.eol?]

theorem blankLine? (h : SameLine first second) :
    Source.blankLine? first = Source.blankLine? second := by
  have hfeed : Ascii.isBlank '\n' = false := rfl
  have hbehind := h.drop_takeWhile hfeed
  rw [Source.blankLine?, Source.blankLine?, h.countWhile hfeed]
  rw [Text.drop_length_takeWhile, Text.drop_length_takeWhile] at hbehind
  rw [hbehind.eol?]

theorem underline? (h : SameLine first second) :
    Source.underline? first = Source.underline? second := by
  cases h with
  | nil => rfl
  | newline first second => rfl
  | @cons c first second hn hcr h =>
      have hsame := SameLine.cons hn hcr h
      have hfeed : decide ('\n' = c) = false := by simp [Ne.symm hn]
      have hcount := hsame.countWhile (p := fun d => d = c) hfeed
      have hbehind := hsame.drop_countWhile (p := fun d => d = c) hfeed
      simp only [Source.underline?]
      rw [hcount] at hbehind ⊢
      rw [hbehind.blankLine?]

theorem itemNumber? (h : SameLine first second) :
    Source.itemNumber? first = Source.itemNumber? second := by
  have hfeed : Ascii.isDigit '\n' = false := rfl
  have hbehind := h.drop_takeWhile hfeed
  simp only [Source.itemNumber?]
  rw [h.takeWhile hfeed] at hbehind ⊢
  generalize first.drop _ = text at hbehind
  generalize second.drop _ = text' at hbehind
  cases hbehind with
  | nil => rfl
  | newline text text' => simp
  | cons hn hcr h => rfl

theorem drop_itemNumber? (h : SameLine first second) {found : Nat × Char × Nat}
    (hnumber : Source.itemNumber? first = some found) :
    SameLine (first.drop found.1) (second.drop found.1) := by
  have hfeed : Ascii.isDigit '\n' = false := rfl
  have hbehind := h.drop_takeWhile hfeed
  simp only [Source.itemNumber?] at hnumber
  rw [h.takeWhile hfeed] at hbehind hnumber
  generalize hfirst : first.drop _ = text at hbehind hnumber
  generalize hsecond : second.drop _ = text' at hbehind
  cases hbehind with
  | nil => cases hnumber
  | newline text text' => simp at hnumber
  | @cons c text text' hn hcr hbehind =>
      obtain ⟨-, hnumber⟩ := Option.ite_none_right_eq_some.mp hnumber
      cases hnumber
      rw [← List.drop_drop, ← List.drop_drop, hfirst, hsecond]
      exact hbehind

theorem startsContent (h : SameLine first second) :
    Source.startsContent first = Source.startsContent second := by
  cases h <;> rfl

theorem itemStart? (h : SameLine first second) :
    (Source.itemStart? first).map (fun found => (found.1, found.2.1))
      = (Source.itemStart? second).map fun found => (found.1, found.2.1) := by
  cases h with
  | nil => rfl
  | newline first second => rfl
  | @cons c first second hn hcr h =>
      have hsame := SameLine.cons hn hcr h
      rw [itemStart?_cons, itemStart?_cons, ← hsame.itemNumber?, h.startsContent]
      cases hnumber : Source.itemNumber? (c :: first) with
      | none => split_ifs <;> rfl
      | some found =>
          rw [Option.bind_some, Option.bind_some, (hsame.drop_itemNumber? hnumber).startsContent]
          split_ifs <;> rfl

end SameLine

end Canonmark.Source

namespace Canonmark.Printed

open Source

/-! ## Lines -/

def OneLine (line : Text) : Prop := '\n' ∉ line ∧ '\r' ∉ line

theorem OneLine.same {line : Text} (h : OneLine line) (behind : Text) :
    SameLine (line ++ ['\n']) (line ++ '\n' :: behind) := SameLine.line h.1 h.2 [] behind

theorem OneLine.drop {line : Text} (h : OneLine line) (n : Nat) : OneLine (line.drop n) :=
  ⟨fun hmem => h.1 (List.mem_of_mem_drop hmem), fun hmem => h.2 (List.mem_of_mem_drop hmem)⟩

theorem visible_of_isVisible {line : Text} (h : isVisible line = true) : Visible line := by
  cases line with
  | nil => cases h
  | cons c rest => exact ⟨c, rest, rfl, by simpa [isVisible] using h⟩

theorem Visible.eol? {line : Text} (h : Visible line) (behind : Text) :
    Source.eol? (line ++ behind) = none := by
  obtain ⟨c, rest, rfl, hvisible⟩ := h
  simp only [Ascii.isSpace, Bool.or_eq_false_iff, decide_eq_false_iff_not] at hvisible
  exact eol?_cons hvisible.1.2 hvisible.2 _

theorem Visible.blankLine? {line : Text} (h : Visible line) (behind : Text) :
    Source.blankLine? (line ++ behind) = none := by
  have heol := h.eol? behind
  obtain ⟨c, rest, rfl, hvisible⟩ := h
  simp only [Ascii.isSpace, Bool.or_eq_false_iff] at hvisible
  rw [Source.blankLine?, List.cons_append, List.dropWhile_cons, hvisible.1.1,
    if_neg (by decide), ← List.cons_append, heol, Option.map_none]

theorem Visible.isBlankLine {line : Text} (h : Visible line) (behind : Text) :
    Source.isBlankLine (line ++ behind) = false := by
  rw [Source.isBlankLine, h.blankLine?]
  rfl

theorem separator?_same {line : Text} (hvisible : Visible line) (hone : OneLine line)
    (behind : Text) :
    Table.separator? (line ++ ['\n']) = Table.separator? (line ++ '\n' :: behind) := by
  have hfeed : (decide ('\n' ≠ '\n') && decide ('\n' ≠ '\r')) = false := rfl
  have hsame := (hone.same behind).takeWhile (p := fun c => c ≠ '\n' && c ≠ '\r') hfeed
  have hending := (hone.same behind).drop_takeWhile (p := fun c => c ≠ '\n' && c ≠ '\r') hfeed
  have hsome (behind : Text) : (line ++ behind).isEmpty = false := by
    obtain ⟨c, rest, rfl, -⟩ := hvisible
    rfl
  simp only [Table.separator?, start_eq, takeUpTo_headAt (hvisible.front _)]
  simp only [headAt, hsome]
  rw [hsame] at hending
  simp only [hsame, hending.eol?]
  rfl

theorem rule?_head {text : Text} {n : Nat} (h : rule? text = some n) :
    ∃ c rest, text = c :: rest ∧ (c = '*' ∨ c = '-' ∨ c = '_') := by
  cases text with
  | nil => cases h
  | cons c rest =>
      refine ⟨c, rest, rfl, ?_⟩
      simp only [rule?] at h
      obtain ⟨hmark, -⟩ := Option.ite_none_right_eq_some.mp h
      simpa [or_assoc] using hmark

theorem endsNoLabel_cons {c : Char} (hescapes : c ≠ '\\') (hopens : c ≠ '[') (hcloses : c ≠ ']')
    (rest : Text) : endsNoLabel (c :: rest) = endsNoLabel rest := by
  rw [endsNoLabel]
  · simp [hescapes]
  · simp [hescapes]
  · simpa using hopens
  · simpa using hcloses

theorem space?_endsNoLabel {follow : Text → Option Nat} {fuel n : Nat} {broken : Bool}
    {line behind : Text} (hone : OneLine line) (hends : endsNoLabel line = true)
    (h : Label.space? follow fuel broken (line ++ '\n' :: behind) = some n) :
    endsNoLabel (line.drop n) = true ∧ n ≤ line.length := by
  induction fuel generalizing line n with
  | zero => cases h
  | succ fuel ih =>
      cases line with
      | nil => cases hends
      | cons c rest =>
          obtain ⟨hfeed, hcarriage⟩ := hone
          simp only [List.mem_cons, not_or] at hfeed hcarriage
          have heol := eol?_cons (Ne.symm hfeed.1) (Ne.symm hcarriage.1) (rest ++ '\n' :: behind)
          simp only [List.cons_append, Label.space?] at h
          split at h
          · cases h
            exact ⟨hends, Nat.zero_le _⟩
          · next hspace =>
              rw [heol] at h
              obtain ⟨k, hfound, rfl⟩ := Option.map_eq_some_iff.mp h
              have hinner : endsNoLabel rest = true := by
                have hback : c ≠ '\\' := by rintro rfl; exact hspace rfl
                have hopen : c ≠ '[' := by rintro rfl; exact hspace rfl
                have hclose : c ≠ ']' := by rintro rfl; exact hspace rfl
                rwa [endsNoLabel_cons hback hopen hclose] at hends
              obtain ⟨hbehind, hle⟩ := ih ⟨hfeed.2, hcarriage.2⟩ hinner hfound
              exact ⟨hbehind, Nat.succ_le_succ hle⟩

theorem head?_drop_line {line rest behind : Text} {length stop n : Nat} (hdrop : line.drop n = rest)
    (hle : n ≤ line.length)
    (hinner : length + n ≤ stop ∧
      ((rest ++ '\n' :: behind).drop (stop - (length + n))).head? ≠ some ':') :
    length ≤ stop ∧ ((line ++ '\n' :: behind).drop (stop - length)).head? ≠ some ':' := by
  refine ⟨by omega, ?_⟩
  have hsplit : stop - length = n + (stop - (length + n)) := by omega
  rw [hsplit, ← List.drop_drop, List.drop_append_of_le_length hle, hdrop]
  exact hinner.2

/-- No colon follows a label that starts on a line where none ends in front of one. -/
theorem read?_endsNoLabel {follow : Text → Option Nat} {fuel weight length : Nat} {blank : Bool}
    {kept line behind : Text} {found : Text × Nat} (hone : OneLine line)
    (hends : endsNoLabel line = true)
    (h : Label.read? follow fuel weight blank kept length (line ++ '\n' :: behind) = some found) :
    length ≤ found.2 ∧ ((line ++ '\n' :: behind).drop (found.2 - length)).head? ≠ some ':' := by
  -- The cases of the label reader; an escape takes the character behind it from the line.
  induction fuel generalizing weight length blank kept line with
  | zero => cases h
  | succ fuel ih =>
      cases line with
      | nil => cases hends
      | cons c rest =>
          rw [List.cons_append] at h
          by_cases hopens : c = '['
          · subst hopens
            rw [Label.read?] at h
            exact absurd h (by simp)
          by_cases hcloses : c = ']'
          · subst hcloses
            rw [Label.read?] at h
            obtain ⟨-, h⟩ := Option.ite_none_left_eq_some.mp h
            obtain ⟨-, h⟩ := Option.ite_none_left_eq_some.mp h
            cases h
            refine head?_drop_line List.drop_one (by simp) ⟨Nat.le_refl _, ?_⟩
            rw [Nat.sub_self]
            cases rest with
            | nil => simp
            | cons d rest => simpa [endsNoLabel] using hends
          by_cases hescapes : c = '\\'
          · subst hescapes
            cases rest with
            | nil => cases hends
            | cons d rest =>
                rw [List.cons_append, Label.read?] at h
                obtain ⟨-, h⟩ := Option.ite_none_left_eq_some.mp h
                rw [endsNoLabel] at hends
                have hdrop : ('\\' :: d :: rest).drop 2 = rest := rfl
                exact head?_drop_line hdrop (by simp) (ih (hone.drop 2) hends h)
          rw [Label.read?] at h
          · obtain ⟨-, h⟩ := Option.ite_none_left_eq_some.mp h
            split at h
            · obtain ⟨n, hspace, h⟩ := Option.bind_eq_some_iff.mp h
              rw [← List.cons_append] at hspace h
              obtain ⟨hinner, hle⟩ := space?_endsNoLabel hone hends hspace
              rw [List.drop_append_of_le_length hle] at h
              exact head?_drop_line rfl hle (ih (hone.drop n) hinner h)
            · rw [endsNoLabel_cons hescapes hopens hcloses] at hends
              exact head?_drop_line List.drop_one (by simp) (ih (hone.drop 1) hends h)
          · exact hopens
          · exact hcloses
          · exact fun hsame _ => hescapes hsame
          · exact fun _ _ hsame _ => hescapes hsame

theorem scan?_endsNoLabel {follow : Text → Option Nat} {line behind : Text}
    {found : Text × Nat} (hone : OneLine line) (hends : endsNoLabel line = true)
    (h : Label.scan? follow (line ++ '\n' :: behind) = some found) :
    ((line ++ '\n' :: behind).drop found.2).head? ≠ some ':' :=
  (read?_endsNoLabel hone hends h).2

theorem head?_line (line behind : Text) {c : Char} (hfeed : c ≠ '\n') :
    (line ++ '\n' :: behind).head? = some c ↔ line.head? = some c := by
  cases line with
  | nil => simp [Ne.symm hfeed]
  | cons d rest => simp

theorem head?_eq_some_cons {text : Text} {c : Char} (h : text.head? = some c) :
    text = c :: text.drop 1 := by
  cases text with
  | nil => cases h
  | cons d rest =>
      obtain rfl := Option.some.inj h
      rfl

theorem scan?_none {line : Text} (hone : OneLine line) (hlabels : labelsNothing line = true)
    (extensions : Extensions) (containers : List Container) (position : Nat) (behind : Text) :
    Definition.scan? extensions containers position (line ++ '\n' :: behind) = none := by
  by_cases hopens : line.head? = some '['
  · have hends : endsNoLabel (line.drop 1) = true := by simpa [labelsNothing, hopens] using hlabels
    rw [head?_eq_some_cons hopens, List.cons_append]
    simp only [Definition.scan?]
    rw [Option.bind_eq_none_iff]
    intro found hscanned
    have hcolon := scan?_endsNoLabel (hone.drop 1) hends hscanned
    split
    · next tail hsame => exact absurd (by rw [hsame]; rfl) hcolon
    · rfl
  · unfold Definition.scan?
    split
    · next rest hsame =>
        have hhead := congrArg List.head? hsame
        exact absurd ((head?_line line behind (by decide)).mp hhead) hopens
    · rfl

theorem footnoteLabel?_none {line : Text} (hone : OneLine line)
    (hlabels : labelsNothing line = true)
    {behind rest : Text} (h : line ++ '\n' :: behind = '[' :: '^' :: rest) :
    footnoteLabel? rest = none := by
  have hopens : line.head? = some '[' :=
    (head?_line line behind (by decide)).mp (congrArg List.head? h)
  have hends : endsNoLabel (line.drop 1) = true := by simpa [labelsNothing, hopens] using hlabels
  obtain ⟨first, rfl⟩ : ∃ first, line = '[' :: first := ⟨_, head?_eq_some_cons hopens⟩
  have hsecond : first.head? = some '^' := by
    have hhead := congrArg List.head? (List.cons.inj h).2
    exact (head?_line first behind (by decide)).mp hhead
  obtain ⟨label, rfl⟩ : ∃ label, first = '^' :: label := ⟨_, head?_eq_some_cons hsecond⟩
  have hends : endsNoLabel label = true := by
    simpa [endsNoLabel_cons] using hends
  obtain rfl : label ++ '\n' :: behind = rest := by simpa using h
  have hinner : OneLine label := hone.drop 2
  rw [footnoteLabel?, Option.bind_eq_none_iff]
  intro found hscanned
  have hcolon := scan?_endsNoLabel hinner hends hscanned
  simp only
  split
  · next tail hsame => exact absurd (by rw [hsame]; rfl) hcolon
  · rfl

theorem startsFootnote_eq {line : Text} (hone : OneLine line) (hlabels : labelsNothing line = true)
    (behind : Text) : startsFootnote (line ++ '\n' :: behind) = false := by
  unfold startsFootnote
  split
  · next rest hsame => rw [footnoteLabel?_none hone hlabels hsame, Option.isSome_none]
  · rfl

theorem footnote?_none {line : Text} (hone : OneLine line) (hlabels : labelsNothing line = true)
    (taken : Nat) (behind : Text) (reader : BlockReader) :
    BlockReader.footnote? (headAt taken (line ++ '\n' :: behind)) reader = none := by
  unfold BlockReader.footnote?
  split
  · next rest _ hsame => rw [footnoteLabel?_none hone hlabels hsame, Option.map_none]
  · rfl

theorem itemNumber?_none {c : Char} (h : Ascii.isDigit c = false) (rest : Text) :
    itemNumber? (c :: rest) = none := by
  simp only [itemNumber?, List.takeWhile_cons, h]
  rfl

theorem finish_none {text : Text} {width : Nat} (h : startsContent (text.drop width) = false)
    (marker : Char) (number taken : Nat) :
    LineHead.itemMarker?.finish 0 (headAt taken text) marker number width = none := by
  have hadvanced : (headAt taken text).advance width = headAt (taken + width) (text.drop width) :=
    rfl
  rw [LineHead.itemMarker?.finish, hadvanced]
  generalize text.drop width = behind at h
  cases behind with
  | nil => cases h
  | cons d rest =>
      simp only [startsContent, Bool.or_eq_false_iff, decide_eq_false_iff_not] at h
      have hfront : (d :: rest).head? ≠ some ' ' ∧ (d :: rest).head? ≠ some '\t' := by
        simp [h.1.1.1, h.1.1.2]
      simp only [takeExactly_headAt hfront]
      simp [headAt, LineHead.atEol, h.1.2, h.2]

theorem itemMarker?_cons (c : Char) (rest : Text) (taken : Nat) :
    (headAt taken (c :: rest)).itemMarker? 0
      = if isBullet c then
          if (rule? (c :: rest)).isSome then none
          else LineHead.itemMarker?.finish 0 (headAt taken (c :: rest)) c 0 1
        else
          (itemNumber? (c :: rest)).bind fun found =>
            LineHead.itemMarker?.finish 0 (headAt taken (c :: rest)) found.2.1 found.2.2
              found.1 := rfl

theorem itemMarker?_none {text : Text} (h : itemStart? text = none) (taken : Nat) :
    (headAt taken text).itemMarker? 0 = none := by
  cases text with
  | nil => rfl
  | cons c rest =>
      rw [itemStart?_cons] at h
      rw [itemMarker?_cons]
      by_cases hbullet : isBullet c = true
      · simp only [hbullet, Bool.true_or, if_true] at h
        rw [if_pos hbullet]
        have hcontent : startsContent ((c :: rest).drop 1) = false := by
          by_contra hcontent
          rw [List.drop_succ_cons, List.drop_zero, Bool.not_eq_false] at hcontent
          rw [hcontent, if_pos rfl] at h
          cases h
        split
        · rfl
        · exact finish_none hcontent c 0 taken
      · rw [if_neg hbullet, Option.bind_eq_none_iff]
        intro found hnumber
        have hdigit : Ascii.isDigit c = true := by
          by_contra hnone
          rw [itemNumber?_none (by simpa using hnone)] at hnumber
          cases hnumber
        have hmarker : ¬(isBullet c || decide (c = '.') || decide (c = ')')) = true := by
          simp only [Bool.or_eq_true, decide_eq_true_eq, not_or]
          refine ⟨⟨hbullet, ?_⟩, ?_⟩
          · rintro rfl
            cases hdigit
          · rintro rfl
            cases hdigit
        rw [if_neg hmarker, hnumber, Option.bind_some] at h
        split_ifs at h with hcontent
        exact finish_none (by simpa using hcontent) _ _ _

theorem itemMarker?_none_of_head {c : Char} {rest : Text} (hdigit : Ascii.isDigit c = false)
    (hbullet : isBullet c = true → (rule? (c :: rest)).isSome = true) (taken : Nat) :
    (headAt taken (c :: rest)).itemMarker? 0 = none := by
  rw [itemMarker?_cons, itemNumber?_none hdigit, Option.bind_none]
  split
  · next hmarker => rw [if_pos (hbullet hmarker)]
  · rfl

end Canonmark.Printed
