import Canonmark.Proofs.Html.Piece
import Canonmark.Proofs.Html.Unindented
import Canonmark.Proofs.Source.Emphases
import Canonmark.Proofs.Text.Splice

/-!
# Delimiters become tags

In the text between tags, delimiters of emphasis are exchanged for the tags of elements, pair by
pair, and nothing else changes: the elements are closed in the order in which they nest, and no
edit is lost because it overlaps another.
-/

namespace Canonmark.Html

open Source (Located Paired Stands emphases)

/-- A text in which pairs of delimiters may be exchanged for the tags of an element. -/
inductive Exchanged : Text → Text → Prop
  | nil : Exchanged [] []
  | keep (c : Char) {text out : Text} : Exchanged text out → Exchanged (c :: text) (c :: out)
  | element {tag : Source.Tag} {delimiter : Delimiter} {c : Char} {inner inside behind out : Text}
      (his : Delimiter.ofTag? tag = some delimiter) (hchar : c = '*' ∨ c = '_') :
      Exchanged inner inside → Exchanged behind out →
      Exchanged
        (List.replicate delimiter.width c ++ inner ++ List.replicate delimiter.width c ++ behind)
        (delimiter.opening ++ inside ++ delimiter.closing ++ out)

namespace Exchanged

theorem refl (text : Text) : Exchanged text text := by
  induction text with
  | nil => exact .nil
  | cons c rest ih => exact .keep c ih

theorem append {text out text' out' : Text} (h : Exchanged text out)
    (hlater : Exchanged text' out') : Exchanged (text ++ text') (out ++ out') := by
  induction h with
  | nil => exact hlater
  | keep c _ ih => exact .keep c ih
  | element his hchar hinner _ _ ih =>
      simp only [List.append_assoc]
      simpa only [List.append_assoc] using Exchanged.element his hchar hinner ih

end Exchanged

def Delimiter.ofWidth (width : Nat) : Delimiter :=
  if width = 2 then ⟨"strong".toList, 2⟩ else ⟨"em".toList, 1⟩

theorem Delimiter.ofTag?_eq (tag : Source.Tag) :
    Delimiter.ofTag? tag = (Source.emphasisWidth? tag).map Delimiter.ofWidth := by
  cases tag <;> rfl

theorem emphasisSpans_eq (events : List Located) :
    emphasisSpans events =
      (emphases events).map fun entry => (Delimiter.ofWidth entry.1, entry.2) := by
  rw [emphasisSpans, emphases, List.map_filterMap]
  congr 1
  funext entry
  obtain ⟨event, span⟩ := entry
  cases event with
  | enter tag =>
      cases h : Source.emphasisWidth? tag <;> simp [Delimiter.ofTag?_eq, h]
  | _ => rfl

theorem slice_of_stands {text : Text} {c : Char} {start width : Nat}
    (h : Stands text c start width) :
    Span.slice (.ofLength start width) text = List.replicate width c := by
  apply List.ext_getElem?
  intro i
  rw [Span.slice_ofLength, List.getElem?_take, List.getElem?_drop, List.getElem?_replicate]
  split
  · next hlt => exact h i hlt
  · rfl

section

variable {html : Text} {stop start : Nat} {kept : List (Nat × Char)} {c : Char} {place width : Nat}

theorem Kept.origin_add (h : Kept html stop start kept)
    (hstands : Stands (kept.map (·.2)) c place width) (hnotFeed : c ≠ '\n') {n : Nat}
    (hle : n ≤ width) (hlt : place + n < kept.length) :
    origin stop kept (place + n) = origin stop kept place + n := by
  induction n with
  | zero => rfl
  | succ n ih =>
      have hbefore := ih (Nat.le_of_succ_le hle) (Nat.lt_of_succ_lt hlt)
      rw [← Nat.add_assoc, h.origin_next (hstands n hle) hnotFeed hlt, hbefore, Nat.add_assoc]

theorem Kept.stands (h : Kept html stop start kept)
    (hstands : Stands (kept.map (·.2)) c place width) (hnotFeed : c ≠ '\n') :
    Stands html c (origin stop kept place) width := by
  intro i hlt
  have hhere := hstands i hlt
  have hinside : place + i < kept.length := by
    have := List.getElem?_eq_some_iff.mp hhere
    simpa using this.1
  rw [← h.origin_add hstands hnotFeed (Nat.le_of_lt hlt) hinside]
  exact h.getElem?_origin hhere

theorem Kept.origin_add_le (h : Kept html stop start kept)
    (hstands : Stands (kept.map (·.2)) c place width) (hnotFeed : c ≠ '\n') (hwide : 0 < width) :
    origin stop kept place + width ≤ origin stop kept (place + width) := by
  obtain ⟨n, rfl⟩ := Nat.exists_eq_add_of_lt hwide
  simp only [Nat.zero_add] at hstands ⊢
  have hinside : place + n < kept.length := by
    have := List.getElem?_eq_some_iff.mp (hstands n (Nat.lt_succ_self n))
    simpa using this.1
  have hlast := h.origin_add hstands hnotFeed (Nat.le_succ n) hinside
  have hnext := h.origin_lt hinside
  rw [Nat.add_assoc] at hnext
  omega

end

/-- The edits of a part of the HTML exchange its delimiters, and none of them overlaps. -/
def Exchanges (html : Text) (start stop : Nat) (edits : List Edit) : Prop :=
  ∃ out, Splice.Replaced html start stop edits out ∧
    Exchanged (Span.slice (.upTo start stop) html) out

section

variable {html : Text} {start middle stop : Nat} {edits others : List Edit}

theorem Exchanges.keep (hle : start ≤ stop) (hinside : stop ≤ html.length) :
    Exchanges html start stop [] :=
  ⟨_, .keep hle hinside, .refl _⟩

theorem Exchanges.append (h : Exchanges html start middle edits)
    (hlater : Exchanges html middle stop others) (hfirst : start ≤ middle)
    (hsecond : middle ≤ stop) :
    Exchanges html start stop (edits ++ others) := by
  obtain ⟨out, hreplaced, hexchanged⟩ := h
  obtain ⟨behind, hreplaces, hexchanges⟩ := hlater
  refine ⟨out ++ behind, .append hreplaced hreplaces, ?_⟩
  rw [← Text.slice_append html hfirst hsecond]
  exact hexchanged.append hexchanges

theorem Exchanges.element {first last width : Nat} {c : Char} (hchar : c = '*' ∨ c = '_')
    (hwide : width = 1 ∨ width = 2) (hopening : Stands html c first width)
    (hclosing : Stands html c last width) (hinner : Exchanges html (first + width) last edits)
    (hle : first + width ≤ last) (hinside : last + width ≤ html.length) :
    Exchanges html first (last + width)
      (.replacement first width (Delimiter.ofWidth width).opening ::
        .replacement last width (Delimiter.ofWidth width).closing :: edits) := by
  obtain ⟨out, hreplaced, hexchanged⟩ := hinner
  obtain ⟨tag, his, hsame⟩ :
      ∃ tag, Delimiter.ofTag? tag = some (Delimiter.ofWidth width) ∧
        (Delimiter.ofWidth width).width = width := by
    rcases hwide with rfl | rfl
    · exact ⟨.emphasis, rfl, rfl⟩
    · exact ⟨.strong, rfl, rfl⟩
  have hpos : 0 < width := by omega
  have hopens : Splice.Replaced html first (first + width) [_] _ :=
    .edit (Delimiter.ofWidth width).opening hpos (by omega)
  have hcloses : Splice.Replaced html last (last + width) [_] _ :=
    .edit (Delimiter.ofWidth width).closing hpos hinside
  refine ⟨_, .perm ?_ (.append hopens (.append hreplaced hcloses)), ?_⟩
  · exact (List.perm_append_singleton _ _).cons _
  · have helement := Exchanged.element his hchar hexchanged Exchanged.nil
    rw [hsame] at helement
    rw [← Text.slice_append html (show first ≤ first + width by omega) (by omega),
      ← Text.slice_append html hle (show last ≤ last + width by omega), Span.upTo_add,
      Span.upTo_add, slice_of_stands hopening, slice_of_stands hclosing]
    simpa [List.append_assoc] using helement

end

theorem exchanges_of_paired {html : Text} {stop start : Nat} {kept : List (Nat × Char)}
    (h : Kept html stop start kept) (hinside : stop ≤ html.length) {first last : Nat}
    {spans : List (Nat × Span)} (hpaired : Paired (kept.map (·.2)) first last spans) :
    Exchanges html (origin stop kept first) (origin stop kept last)
      (spans.flatMap fun (width, span) =>
        (Delimiter.ofWidth width).edits (origin stop kept) span) := by
  have hbound (place : Nat) := (h.start_le_origin place).2
  induction hpaired with
  | nil hle => exact .keep (h.origin_mono hle) (Nat.le_trans (hbound _) hinside)
  | @pair first last width span inner behind c hle hchar hwide hopening hclosing hbetween hlater ih
    ih' =>
      have hpos : 0 < width := by omega
      have hnotFeed : c ≠ '\n' := by rcases hchar with rfl | rfl <;> decide
      have hordered := hbetween.le
      have hcloses : span.stop - width + width = span.stop := by omega
      have hwithin : span.start + width < kept.length := by
        have := List.getElem?_eq_some_iff.mp (hclosing 0 hpos)
        have hlt : span.stop - width + 0 < (kept.map (·.2)).length := this.1
        rw [List.length_map] at hlt
        omega
      have hopened := h.origin_add hopening hnotFeed (Nat.le_refl width) hwithin
      have hclosed := h.origin_add_le hclosing hnotFeed hpos
      rw [hcloses] at hclosed
      rw [hopened] at ih
      have hnested := h.origin_mono hordered
      rw [hopened] at hnested
      have hbefore := h.origin_mono hle
      have hfollows := h.origin_mono hlater.le
      have hfits := Nat.le_trans (hbound span.stop) hinside
      have helement := Exchanges.element hchar hwide (h.stands hopening hnotFeed)
        (h.stands hclosing hnotFeed) ih hnested (Nat.le_trans hclosed hfits)
      have hrest := (Exchanges.keep hclosed hfits).append ih' hclosed hfollows
      have hfront := Exchanges.keep hbefore (Nat.le_trans (hbound span.start) hinside)
      have hwhole := hfront.append
        (helement.append hrest (by omega) (Nat.le_trans hclosed hfollows)) hbefore (by omega)
      have hwidths : (Delimiter.ofWidth width).width = width := by
        rcases hwide with rfl | rfl <;> rfl
      simpa [Delimiter.edits, hwidths] using hwhole

inductive Written : (literalDepth : Nat) → List Piece → Text → Prop
  | nil {literalDepth : Nat} : Written literalDepth [] []
  | tag {literalDepth : Nat} (tag : Text) {rest : List Piece} {out : Text} :
      Written (Nesting.literalDepthAfter literalDepth tag) rest out →
      Written literalDepth (.tag tag :: rest) (tag ++ out)
  | literal {literalDepth : Nat} (hopened : 0 < literalDepth) (text : Text) {rest : List Piece}
      {out : Text} :
      Written literalDepth rest out → Written literalDepth (.text text :: rest) (text ++ out)
  | text {text marked : Text} (hexchanged : Exchanged text marked) {rest : List Piece}
      {out : Text} : Written 0 rest out → Written 0 (.text text :: rest) (marked ++ out)

section

variable {read : Text → List Located}

/-- The emphasis that is read in a text lies between its delimiters, and its spans nest. -/
def PairsEmphasis (read : Text → List Located) : Prop :=
  ∀ text, Paired text 0 text.length (emphases (read text))

theorem exchanges_emphasisEdits (hread : PairsEmphasis read) {html before text after : Text}
    (hwhole : html = before ++ text ++ after) :
    Exchanges html before.length (before.length + text.length)
      (emphasisEdits read before.length text) := by
  have hinside : before.length + text.length ≤ html.length := by
    rw [hwhole, List.length_append, List.length_append]
    exact Nat.le_add_right _ _
  have hle : before.length ≤ before.length + text.length := Nat.le_add_right _ _
  rw [emphasisEdits]
  split
  · have hkept := kept_unindented hwhole
    have hpaired := hread ((unindented before.length text).map (·.2))
    have hspans := exchanges_of_paired hkept hinside hpaired
    have hall : (unindented before.length text).length ≤
        ((unindented before.length text).map (·.2)).length := by rw [List.length_map]
    rw [origin_of_length_le hall] at hspans
    have ⟨hfirst, hlast⟩ := hkept.start_le_origin 0
    have hfront := Exchanges.keep hfirst (Nat.le_trans hlast hinside)
    simp only [emphasisSpans_eq, getD_positions, List.flatMap_map]
    have hexchanged := hfront.append hspans hfirst hlast
    rw [List.nil_append] at hexchanged
    exact hexchanged
  · exact .keep hle hinside

theorem exists_written (hread : PairsEmphasis read) {html before : Text} {pieces : List Piece}
    {literalDepth : Nat} (hwhole : html = before ++ pieces.flatMap Piece.source) :
    ∃ out, Splice.Replaced html before.length html.length
      (pieceEdits read before.length literalDepth pieces) out ∧
      Written literalDepth pieces out := by
  induction pieces generalizing before literalDepth with
  | nil =>
      obtain rfl : html = before := by simpa using hwhole
      refine ⟨_, .keep (Nat.le_refl _) (Nat.le_refl _), ?_⟩
      simpa [Span.slice] using Written.nil
  | cons piece rest ih =>
      have hsplit : html = before ++ piece.source ++ rest.flatMap Piece.source := by
        simpa using hwhole
      have hinside : before.length + piece.source.length ≤ html.length := by
        rw [hsplit, List.length_append, List.length_append]
        exact Nat.le_add_right _ _
      have hverbatim := Splice.Replaced.keep (Nat.le_add_right before.length _) hinside
      have hsame : Span.slice (.ofLength before.length piece.source.length) html =
          piece.source := by
        rw [hsplit, List.append_assoc, Span.slice_ofLength, List.drop_left, List.take_left]
      rw [Span.upTo_add, hsame] at hverbatim
      cases piece with
      | tag tag =>
          obtain ⟨out, hreplaced, hwritten⟩ := @ih (before ++ tag)
            (Nesting.literalDepthAfter literalDepth tag) hsplit
          rw [List.length_append] at hreplaced
          exact ⟨tag ++ out, .append hverbatim hreplaced, .tag tag hwritten⟩
      | text text =>
          obtain ⟨out, hreplaced, hwritten⟩ := @ih (before ++ text) literalDepth hsplit
          rw [List.length_append] at hreplaced
          by_cases hread' : literalDepth = 0
          · obtain ⟨marked, hhere, hexchanged⟩ := exchanges_emphasisEdits hread hsplit
            change Exchanged (Span.slice (.upTo _ (_ + (Piece.text text).source.length)) html) _
              at hexchanged
            rw [Span.upTo_add, hsame] at hexchanged
            subst hread'
            refine ⟨marked ++ out, ?_, .text hexchanged hwritten⟩
            rw [pieceEdits, if_pos rfl]
            exact .append hhere hreplaced
          · refine ⟨text ++ out, ?_, .literal (Nat.pos_of_ne_zero hread') text hwritten⟩
            rw [pieceEdits, if_neg hread']
            exact .append hverbatim hreplaced

/--
Tags, comments and literal content are kept, and elsewhere only delimiters are exchanged for the
tags of elements. No edit is dropped.
-/
theorem markEmphasisWith_exchanges (hread : PairsEmphasis read) (html : Text) :
    Cut (Piece.split html) html ∧ Written 0 (Piece.split html) (markEmphasisWith read html) ∧
      (Splice.keep html.length 0 (Splice.sort (pieceEdits read 0 0 (Piece.split html)))).Perm
        (pieceEdits read 0 0 (Piece.split html)) := by
  have hcut := Piece.cut_split html
  obtain ⟨out, hreplaced, hwritten⟩ :=
    @exists_written read hread html [] (Piece.split html) 0 hcut.flatMap_source.symm
  rw [List.length_nil] at hreplaced
  refine ⟨hcut, ?_, ?_⟩
  · rw [markEmphasisWith, hreplaced.apply_eq]
    exact hwritten
  · rw [hreplaced.keep_sort]
    exact Splice.sort_perm _

end

theorem pairsEmphasis_readPlain : PairsEmphasis readPlain := fun text =>
  Source.SourceRead.paired_ofSource Extensions.none text

/-- So it is with emphasis that is read as in a document without extensions. -/
theorem markEmphasis_exchanges (html : Text) :
    Cut (Piece.split html) html ∧ Written 0 (Piece.split html) (markEmphasis html) ∧
      (Splice.keep html.length 0 (Splice.sort (pieceEdits readPlain 0 0 (Piece.split html)))).Perm
        (pieceEdits readPlain 0 0 (Piece.split html)) :=
  markEmphasisWith_exchanges pairsEmphasis_readPlain html

end Canonmark.Html
