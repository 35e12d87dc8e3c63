import Canonmark.Proofs.Html.LineStarts
import Canonmark.Proofs.Text.Bytes

/-!
# Places and positions

Delimiters are found in a text without indentation and exchanged in the HTML. The map between the
two is exact: it ascends, leads from each character to the same one, and leaves nothing out but
the indentation of the lines. It makes no difference whether characters or bytes are counted.
-/

namespace Canonmark.Html

open Source (Located)
open Text (bytewise byteOffset spread)

/-- A space or tab with nothing but spaces and tabs in front of it on its line. -/
structure IsIndentation (text : Text) (i : Nat) : Prop where
  here : ∃ c, text[i]? = some c ∧ indents c = true
  front : ∀ c ∈ Text.lineBefore text i, indents c = true

theorem forall_mem_take_iff {p : Char → Bool} {text : Text} {n : Nat} (hle : n ≤ text.length) :
    (∀ c ∈ text.take n, p c = true) ↔ n ≤ (text.takeWhile p).length := by
  induction text generalizing n with
  | nil => simpa using hle
  | cons c rest ih =>
      cases n with
      | zero => simp
      | succ n =>
          rw [List.take_succ_cons, List.forall_mem_cons, ih (Nat.le_of_succ_le_succ hle)]
          by_cases h : p c = true
          · rw [List.takeWhile_cons_of_pos h, List.length_cons, Nat.succ_le_succ_iff]
            exact and_iff_right h
          · simp [List.takeWhile_cons_of_neg h, h]

theorem lineBefore_line {before line after : Text}
    (hstarts : before = [] ∨ before.getLast? = some '\n') (hinner : '\n' ∉ line.dropLast) {k : Nat}
    (hlt : k < line.length) :
    Text.lineBefore (before ++ (line ++ after)) (before.length + k) = (line.take k).reverse := by
  have hfront : ∀ c ∈ (line.take k).reverse, decide (c ≠ '\n') = true := by
    intro c hmem
    have hinside : c ∈ line.dropLast := by
      rw [List.dropLast_eq_take]
      exact List.take_subset_take_left _ (Nat.le_sub_one_of_lt hlt) (List.mem_reverse.mp hmem)
    simpa using ne_of_mem_of_not_mem hinside hinner
  have hends : before.reverse.takeWhile (· ≠ '\n') = [] := by
    rcases hstarts with rfl | hlast
    · rfl
    · obtain ⟨body, rfl⟩ := List.getLast?_eq_some_iff.mp hlast
      simp
  rw [Text.lineBefore, List.take_length_add_append, List.take_append_of_le_length
    (Nat.le_of_lt hlt),
    List.reverse_append, List.takeWhile_append_of_pos hfront, hends, List.append_nil]

theorem isIndentation_iff {before content after : Text}
    (hstarts : before = [] ∨ before.getLast? = some '\n') (hinner : '\n' ∉ content.dropLast)
    {k : Nat}
    (hlt : k < content.length) :
    IsIndentation (before ++ (content ++ after)) (before.length + k) ↔
      k < (content.takeWhile indents).length := by
  have hhere : (before ++ (content ++ after))[before.length + k]? = some content[k] := by
    rw [List.getElem?_append_right (Nat.le_add_right _ _), Nat.add_sub_cancel_left,
      List.getElem?_append_left hlt, List.getElem?_eq_getElem hlt]
  have hfront := @lineBefore_line before content after hstarts hinner k hlt
  have hsplit : content.take (k + 1) = content.take k ++ [content[k]] :=
    (List.take_append_getElem hlt).symm
  rw [← Nat.succ_le_iff, ← forall_mem_take_iff hlt, Nat.succ_eq_add_one, hsplit,
    List.forall_mem_append, List.forall_mem_singleton]
  constructor
  · rintro ⟨⟨c, his, hindent⟩, hblank⟩
    obtain rfl := Option.some.inj (hhere.symm.trans his)
    rw [hfront] at hblank
    exact ⟨fun c hmem => hblank c (List.mem_reverse.mpr hmem), hindent⟩
  · rintro ⟨hblank, hindent⟩
    refine ⟨⟨_, hhere, hindent⟩, fun c hmem => ?_⟩
    rw [hfront] at hmem
    exact hblank c (List.mem_reverse.mp hmem)

theorem positions_run (position : Nat) (text : Text) :
    (run position text).map (·.1) = List.range' position text.length := by
  rw [run, List.map_map]
  exact List.zipIdx_map_snd position text

theorem mem_positions_unindentedLine {position i : Nat} {line : Text} :
    i ∈ (unindentedLine position line).map (·.1) ↔
      position + (line.takeWhile indents).length ≤ i ∧ i < position + line.length := by
  have hwidth := length_takeWhile_add line
  rw [unindentedLine_eq, positions_run, List.mem_range'_1]
  omega

theorem le_of_mem_positions {position i : Nat} {lines : List Text}
    (hmem : i ∈ (unindentedFrom position lines).map (·.1)) : position ≤ i := by
  induction lines generalizing position with
  | nil => cases hmem
  | cons line rest ih =>
      rw [unindentedFrom, List.map_append, List.mem_append] at hmem
      rcases hmem with hmem | hmem
      · have := (mem_positions_unindentedLine.mp hmem).1
        omega
      · exact Nat.le_trans (Nat.le_add_right _ _) (ih hmem)

/-- What is left out of lines is their indentation. -/
theorem mem_positions_iff {whole before : Text} {lines : List Text} (hlines : Text.Lines lines)
    (hsplit : whole = before ++ lines.flatten)
    (hstarts : before = [] ∨ before.getLast? = some '\n') {i : Nat} (hle : before.length ≤ i)
    (hlt : i < whole.length) (position : Nat) :
    position + i ∈ (unindentedFrom (position + before.length) lines).map (·.1) ↔
      ¬IsIndentation whole i := by
  induction lines generalizing before with
  | nil =>
      rw [hsplit, List.flatten_nil, List.append_nil] at hlt
      omega
  | cons line rest ih =>
      obtain ⟨-, hinner, hlast, hlater⟩ := hlines
      obtain ⟨k, rfl⟩ := Nat.exists_eq_add_of_le hle
      rw [List.flatten_cons] at hsplit
      rw [unindentedFrom, List.map_append, List.mem_append, mem_positions_unindentedLine]
      rcases Nat.lt_or_ge k line.length with hhere | hbeyond
      · have hbehind : position + (before.length + k) ∉
            (unindentedFrom (position + before.length + line.length) rest).map (·.1) := by
          intro hmem
          have := le_of_mem_positions hmem
          omega
        rw [or_iff_left hbehind, hsplit, isIndentation_iff hstarts hinner hhere]
        omega
      · have hmore : rest ≠ [] := by
          rintro rfl
          rw [hsplit, List.flatten_nil, List.append_nil, List.length_append] at hlt
          omega
        have hends : (before ++ line).getLast? = some '\n' := by
          rw [List.getLast?_append, hlast.resolve_left hmore]
          rfl
        have honward := @ih (before ++ line) hlater (by rw [hsplit, List.append_assoc]) (.inr hends)
          (by rw [List.length_append]; omega)
        rw [List.length_append, ← Nat.add_assoc] at honward
        rw [or_iff_right (by omega), honward]

theorem mem_positions_origin (stop : Nat) {i : Nat} {kept : List (Nat × Char)} :
    i ∈ kept.map (·.1) ↔ ∃ place < kept.length, origin stop kept place = i := by
  induction kept with
  | nil => simp
  | cons first rest ih =>
      rw [List.map_cons, List.mem_cons, ih]
      constructor
      · rintro (rfl | ⟨place, hlt, rfl⟩)
        · exact ⟨0, Nat.succ_pos _, rfl⟩
        · exact ⟨place + 1, Nat.succ_lt_succ hlt, rfl⟩
      · rintro ⟨_ | place, hlt, rfl⟩
        · exact .inl rfl
        · exact .inr ⟨place, Nat.lt_of_succ_lt_succ hlt, rfl⟩

/-- The position of a place in a text without indentation, in the HTML or behind the text. -/
def originIn (position : Nat) (text : Text) : Nat → Nat :=
  origin (position + text.length) (unindented position text)

/--
A map from the places in a text without indentation to the positions of the text itself, which
stands between `before` and `after`.
-/
structure Retraces (before text after : Text) (origin : Nat → Nat) : Prop where
  inside : ∀ place < (withoutIndentation text).length,
    before.length ≤ origin place ∧ origin place < before.length + text.length
  ascends : ∀ place other, place < other → other < (withoutIndentation text).length →
    origin place < origin other
  same : ∀ place < (withoutIndentation text).length,
    (before ++ (text ++ after))[origin place]? = (withoutIndentation text)[place]?
  /-- What is no line feed is followed by the next character of its line. -/
  adjacent : ∀ place, place + 1 < (withoutIndentation text).length →
    (withoutIndentation text)[place]? ≠ some '\n' → origin (place + 1) = origin place + 1
  leavesOut : ∀ i < text.length,
    (∀ place < (withoutIndentation text).length, origin place ≠ before.length + i) ↔
      IsIndentation text i

theorem length_withoutIndentation (position : Nat) (text : Text) :
    (withoutIndentation text).length = (unindented position text).length := by
  rw [← map_unindented position, List.length_map]

theorem retraces_originIn (before text after : Text) :
    Retraces before text after (originIn before.length text) := by
  have hkept := @kept_unindented (before ++ (text ++ after)) before text after (by simp)
  have hsize := length_withoutIndentation before.length text
  have hchar {place : Nat} (hlt : place < (withoutIndentation text).length) :
      ((unindented before.length text).map (·.2))[place]? =
        some (withoutIndentation text)[place] := by
    rw [← List.getElem?_eq_getElem hlt, map_unindented]
  constructor
  case inside =>
    intro place hlt
    rw [hsize] at hlt
    exact ⟨(hkept.start_le_origin place).1,
      Nat.lt_of_lt_of_le (hkept.origin_lt hlt) (hkept.start_le_origin _).2⟩
  case ascends =>
    intro place other hlt hinside
    rw [hsize] at hinside
    exact Nat.lt_of_lt_of_le (hkept.origin_lt (Nat.lt_trans hlt hinside)) (hkept.origin_mono hlt)
  case same =>
    intro place hlt
    rw [List.getElem?_eq_getElem hlt]
    exact hkept.getElem?_origin (hchar hlt)
  case adjacent =>
    intro place hlt hnotFeed
    have hhere := Nat.lt_of_succ_lt hlt
    rw [List.getElem?_eq_getElem hhere] at hnotFeed
    exact hkept.origin_next (hchar hhere) (fun hfeed => hnotFeed (congrArg some hfeed))
      (hsize ▸ hlt)
  case leavesOut =>
    intro i hlt
    have hgaps := mem_positions_iff (Text.lines_lineSegments text)
      (show text = [] ++ _ from (Text.flatten_lineSegments text).symm) (.inl rfl)
      (Nat.zero_le i) hlt before.length
    rw [List.length_nil, Nat.add_zero, ← unindented,
      mem_positions_origin (before.length + text.length), ← hsize] at hgaps
    rw [← not_iff_not, ← hgaps]
    simp [originIn]

theorem spread_cases (c : Char) :
    (indents c = true ∧ spread c = [c]) ∨
      (indents c = false ∧ ∀ byte ∈ spread c, indents byte = false) := by
  have hascii {byte : Char} (hindent : indents byte = true) : byte.toNat < 128 := by
    have hblank : byte = ' ' ∨ byte = '\t' := by simpa [indents] using hindent
    rcases hblank with rfl | rfl <;> decide
  cases h : indents c with
  | true => exact .inl ⟨rfl, Text.spread_of_lt (hascii h)⟩
  | false =>
      refine .inr ⟨rfl, fun byte hmem => eq_false_of_ne_true fun hindent => ?_⟩
      rw [Text.eq_of_mem_spread (hascii hindent) hmem, h] at hindent
      cases hindent

theorem indentation_bytewise (line : Text) :
    (bytewise line).takeWhile indents = bytewise (line.takeWhile indents) ∧
      (bytewise line).dropWhile indents = bytewise (line.dropWhile indents) := by
  induction line with
  | nil => exact ⟨rfl, rfl⟩
  | cons c rest ih =>
      rcases spread_cases c with ⟨hindent, hsame⟩ | ⟨hother, hbytes⟩
      · simp [hsame, hindent, ih]
      · obtain ⟨first, more, heq⟩ := Text.exists_spread c
        have hstops : indents first = false := hbytes first (by rw [heq]; exact List.mem_cons_self)
        simp [heq, hother, hstops]

theorem withoutIndentation_bytewise (text : Text) :
    withoutIndentation (bytewise text) = bytewise (withoutIndentation text) := by
  rw [withoutIndentation, Text.lineSegments_bytewise, withoutIndentation]
  induction Text.lineSegments text with
  | nil => rfl
  | cons line rest ih =>
      rw [List.map_cons, List.flatMap_cons, ih, List.flatMap_cons, Text.bytewise_append]
      exact congrArg (· ++ _) (indentation_bytewise line).2

theorem origin_bytewise {whole before after : Text} {lines : List Text}
    (hsplit : whole = before ++ (lines.flatten ++ after)) {place : Nat}
    (hle : place ≤ (unindentedFrom before.length lines).length) :
    origin ((bytewise before).length + (bytewise lines.flatten).length)
        (unindentedFrom (bytewise before).length (lines.map bytewise))
        (byteOffset (lines.flatMap (·.dropWhile indents)) place) =
      byteOffset whole
        (origin (before.length + lines.flatten.length) (unindentedFrom before.length lines)
          place) := by
  induction lines generalizing before place with
  | nil =>
      rw [hsplit]
      exact (Text.byteOffset_length before after).symm
  | cons line rest ih =>
      have ⟨hindentation, hcontent⟩ := indentation_bytewise line
      rw [unindentedFrom, List.length_append, length_unindentedLine] at hle
      rw [List.map_cons, unindentedFrom, unindentedFrom, List.flatMap_cons]
      rcases Nat.lt_or_ge place (line.dropWhile indents).length with hlt | hge
      · have hinside : byteOffset (line.dropWhile indents) place <
            (bytewise (line.dropWhile indents)).length := by
          have hfull := Text.byteOffset_length (line.dropWhile indents) []
          rw [List.append_nil] at hfull
          rw [← hfull]
          exact Text.byteOffset_lt hlt hlt
        have hfront : whole = before ++ (line.takeWhile indents ++
            (line.dropWhile indents ++ (rest.flatten ++ after))) := by
          rw [hsplit, ← List.append_assoc (line.takeWhile indents),
            List.takeWhile_append_dropWhile, List.flatten_cons, List.append_assoc]
        rw [Text.byteOffset_append_left (Nat.le_of_lt hlt), origin_line_left hlt,
          origin_line_left (by rwa [hcontent]), hindentation, hfront, Nat.add_assoc before.length,
          Text.byteOffset_append, Text.byteOffset_append,
          Text.byteOffset_append_left (Nat.le_of_lt hlt), Nat.add_assoc]
      · obtain ⟨n, rfl⟩ := Nat.exists_eq_add_of_le hge
        have hlater := @ih (before ++ line) (by rw [hsplit, List.flatten_cons]; simp) n
          (by rw [List.length_append]; exact Nat.le_of_add_le_add_left hle)
        rw [Text.byteOffset_append, ← hcontent, origin_line_right, origin_line_right]
        simpa [Nat.add_assoc] using hlater

theorem emphasisEdits_eq {read : Text → List Located} (hread : PairsEmphasis read) (position : Nat)
    (text : Text) :
    emphasisEdits read position text =
      (emphasisIn read text).flatMap fun (delimiter, span) =>
        delimiter.edits (originIn position text) span := by
  rw [emphasisEdits]
  split
  · simp only [map_unindented, getD_positions]
    rfl
  · next hfree => rw [emphasisIn_eq_nil hread (by simpa using hfree), List.flatMap_nil]

/--
Delimiters are exchanged in the HTML at the positions that belong to their places in the text
without indentation. The positions are those that the table of line starts leads to, and they are
the same whether characters or bytes are counted.
-/
theorem emphasisEdits_retrace (before text after : Text) :
    emphasisEdits readPlain before.length text =
        (emphasisIn readPlain text).flatMap (fun (delimiter, span) =>
          delimiter.edits (originIn before.length text) span) ∧
      Retraces before text after (originIn before.length text) ∧
      ((LineStart.ofText before.length text).Pairwise fun first second =>
        first.place ≤ second.place) ∧
      (text ≠ [] → ∀ place ≤ (withoutIndentation text).length,
        LineStart.origin? (LineStart.ofText before.length text) place =
          some (originIn before.length text place)) ∧
      withoutIndentation (bytewise text) = bytewise (withoutIndentation text) ∧
      ∀ place ≤ (withoutIndentation text).length,
        originIn (bytewise before).length (bytewise text)
            (byteOffset (withoutIndentation text) place) =
          byteOffset (before ++ (text ++ after)) (originIn before.length text place) := by
  have hflat := Text.flatten_lineSegments text
  have hsize := length_withoutIndentation before.length text
  refine ⟨emphasisEdits_eq pairsEmphasis_readPlain _ _, retraces_originIn before text after,
    LineStart.pairwise_ofLines _ _ _, fun hfilled place hle => ?_,
    withoutIndentation_bytewise text, fun place hle => ?_⟩
  · have hlines : Text.lineSegments text ≠ [] := fun hnone => hfilled (by rw [← hflat, hnone]; rfl)
    rw [hsize] at hle
    have htable := origin?_ofLines hlines 0 before.length hle
    rwa [hflat, Nat.zero_add] at htable
  · have hsplit : before ++ (text ++ after) =
        before ++ ((Text.lineSegments text).flatten ++ after) := by rw [hflat]
    rw [hsize] at hle
    have hbytes := origin_bytewise hsplit hle
    rw [hflat, ← Text.lineSegments_bytewise] at hbytes
    exact hbytes

theorem emphasisEdits_retrace_indented :
    let before := "<p>".toList
    let text := "  *é\n\t b*".toList
    text ≠ [] ∧ 4 ≤ (withoutIndentation text).length ∧
      LineStart.origin? (LineStart.ofText before.length text) 4 =
        some (originIn before.length text 4) ∧
      originIn (bytewise before).length (bytewise text)
          (byteOffset (withoutIndentation text) 4) =
        byteOffset (before ++ (text ++ "</p>".toList)) (originIn before.length text 4) := by
  intro before text
  have hfilled : text ≠ [] := by decide
  have hinside : 4 ≤ (withoutIndentation text).length := by decide
  obtain ⟨-, -, -, htable, -, hbytes⟩ := emphasisEdits_retrace before text "</p>".toList
  exact ⟨hfilled, hinside, htable hfilled 4 hinside, hbytes 4 hinside⟩

example : (List.range 6).map (originIn 3 "  *é\n\t b*".toList) = [5, 6, 7, 10, 11, 12] := by
  decide

end Canonmark.Html
