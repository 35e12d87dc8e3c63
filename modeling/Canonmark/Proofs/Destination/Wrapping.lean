import Canonmark.Proofs.Destination.Scan
import Canonmark.Proofs.Text.Marked
import Canonmark.Proofs.Text.Splice

/-!
# Wrapping and its offset map

A source in which destinations were wrapped is seen as a text with marked brackets. The marks give
the source back when they are left out, and the positions of the marks are those that are
recorded for the offset map.
-/

namespace Canonmark

namespace Span

def back (n : Nat) (span : Span) : Span :=
  ⟨span.start - n, span.stop - n, Nat.sub_le_sub_right span.start_le_stop n⟩

@[simp] theorem start_back (n : Nat) (span : Span) : (span.back n).start = span.start - n := rfl

@[simp] theorem stop_back (n : Nat) (span : Span) : (span.back n).stop = span.stop - n := rfl

theorem back_shift (position n : Nat) (span : Span) :
    (span.shift n).back (position + n) = span.back position := by
  simp [back, Nat.add_sub_add_right]

end Span

namespace SpacedDestination

/-- A text that starts at `position`, with brackets around the spans. -/
def weave (position : Nat) (text : Text) : List Span → Marked
  | [] => Marked.plain text
  | span :: rest =>
      Marked.plain (text.take (span.start - position)) ++ ('<', true) ::
        (Marked.plain ((span.back position).slice text) ++
          ('>', true) :: weave span.stop (text.drop (span.stop - position)) rest)

def brackets (spans : List Span) : List Edit :=
  spans.flatMap fun span => [Edit.insertion span.start ['<'], Edit.insertion span.stop ['>']]

theorem chain_brackets {limit start : Nat} {spans : List Span}
    (h : Ascending limit start spans) : Splice.Chain limit start (brackets spans) := by
  induction spans generalizing start with
  | nil => trivial
  | cons span rest ih =>
      obtain ⟨hstart, hspan, hstop, hrest⟩ := h
      exact ⟨hstart, Nat.le_trans (Nat.le_of_lt hspan) hstop, Nat.le_of_lt hspan, hstop,
        ih hrest⟩

theorem take_slice_drop (text : Text) (span : Span) :
    text.take span.start ++ (span.slice text ++ text.drop span.stop) = text := by
  have hdrop : text.drop span.stop = (text.drop span.start).drop (span.stop - span.start) := by
    rw [List.drop_drop, Nat.add_sub_cancel' span.start_le_stop]
  rw [Span.slice, hdrop, List.take_append_drop, List.take_append_drop]

@[simp] theorem kept_weave {limit position : Nat} {text : Text} {spans : List Span}
    (h : Ascending limit position spans) : (weave position text spans).kept = text := by
  induction spans generalizing position text with
  | nil => simp [weave]
  | cons span rest ih =>
      obtain ⟨hstart, hspan, -, hrest⟩ := h
      simpa [weave, ih hrest] using take_slice_drop text (span.back position)

theorem text_weave {limit position : Nat} {text : Text} {spans : List Span}
    (h : Ascending limit position spans) :
    (weave position text spans).text = Splice.replace position text (brackets spans) := by
  induction spans generalizing position text with
  | nil => simp [weave, brackets, Splice.replace]
  | cons span rest ih =>
      obtain ⟨hstart, hspan, -, hrest⟩ := h
      have htail := @ih span.stop (text.drop (span.stop - position)) hrest
      have hdrop : (text.drop (span.start - position)).drop (span.stop - span.start) =
          text.drop (span.stop - position) := by
        rw [List.drop_drop]
        congr 1
        omega
      have hwidth : span.stop - position - (span.start - position) = span.stop - span.start := by
        omega
      simp [weave, brackets, Edit.insertion, Splice.replace, Span.slice, hwidth, hdrop, htail]

theorem positions_weave (position count : Nat) {text : Text} {spans : List Span}
    (h : Ascending (position + text.length) position spans) :
    Marked.positions (position + count) (weave position text spans) =
      insertedFrom count spans := by
  induction spans generalizing position count text with
  | nil => simp [weave, insertedFrom]
  | cons span rest ih =>
      obtain ⟨hstart, hspan, hstop, hrest⟩ := h
      have hbehind : (text.take (span.start - position)).length = span.start - position :=
        List.length_take_of_le (by omega)
      have hinner : ((span.back position).slice text).length = span.stop - span.start := by
        rw [Span.slice, List.length_take, List.length_drop, Span.start_back, Span.stop_back]
        omega
      have hopen : position + count + (span.start - position) = span.start + count := by omega
      have hclose : span.start + count + 1 + (span.stop - span.start) =
          span.stop + count + 1 := by omega
      have htail := @ih span.stop (count + 2) (text.drop (span.stop - position))
        (by rw [List.length_drop]; exact hrest.mono (Nat.le_refl _) (by omega))
      have hlast : span.stop + count + 1 + 1 = span.stop + (count + 2) := by omega
      simp only [weave, insertedFrom, Marked.positions_append, Marked.positions,
        Marked.positions_plain, Marked.length_plain, List.nil_append, hbehind, hinner, hopen,
        hclose, hlast, htail]

def markedSource (source : Text) : Marked := weave 0 source (spans source)

theorem kept_markedSource (source : Text) : (markedSource source).kept = source :=
  kept_weave (spans_ascending source)

theorem wrap?_eq (source : Text) :
    wrap? source =
      if spans source = [] then none
      else some ⟨(markedSource source).text, (markedSource source).positions 0⟩ := by
  have hascending := spans_ascending source
  have htext : Splice.apply (brackets (spans source)) source = (markedSource source).text := by
    rw [Splice.apply_of_chain (chain_brackets hascending)]
    exact (text_weave hascending).symm
  have hinserted : insertedFrom 0 (spans source) = (markedSource source).positions 0 := by
    refine (positions_weave 0 0 ?_).symm
    rwa [Nat.zero_add]
  unfold wrap?
  split
  · next hnone => rw [if_pos hnone]
  · next hsome =>
      rw [if_neg fun hnone => hsome hnone, ← htext, ← hinserted]
      rfl

def alternating (n : Nat) : Text := (List.replicate n ['<', '>']).flatten

@[simp] theorem length_alternating (n : Nat) : (alternating n).length = 2 * n := by
  simp [alternating, Nat.mul_comm]

theorem getElem?_alternating {n k : Nat} (h : k < 2 * n) :
    (alternating n)[k]? = some (if k % 2 = 0 then '<' else '>') := by
  induction n generalizing k with
  | zero => omega
  | succ n ih =>
      have hsplit : alternating (n + 1) = '<' :: '>' :: alternating n := rfl
      rw [hsplit]
      match k with
      | 0 => rfl
      | 1 => rfl
      | k + 2 => simpa using ih (by omega)

theorem inserted_weave (position : Nat) (text : Text) (spans : List Span) :
    (weave position text spans).inserted = alternating spans.length := by
  induction spans generalizing position text with
  | nil => simp [weave, alternating]
  | cons span rest ih =>
      have hrest := ih span.stop (text.drop (span.stop - position))
      simpa [weave, alternating, List.replicate_succ] using hrest

/--
What a wrapped source keeps of its source: brackets were inserted in pairs, and leaving them out
gives back the source as well as any part of it, whether positions count characters or bytes.
-/
structure Undoes (wrapped : Wrapped) (source : Text) : Prop where
  ascending : wrapped.inserted.Pairwise (· < ·)
  paired : wrapped.inserted.length % 2 = 0
  alternate : ∀ k (h : k < wrapped.inserted.length),
    wrapped.text[wrapped.inserted[k]]? = some (if k % 2 = 0 then '<' else '>')
  without : Text.without wrapped.inserted 0 wrapped.text = source
  slices : ∀ span : Span, span.stop ≤ wrapped.text.length →
    let origin : Origin := ⟨wrapped.text, source, wrapped.inserted⟩
    origin.suppliedOffset span.start ≤ origin.suppliedOffset span.stop ∧
      origin.suppliedOffset span.stop ≤ source.length ∧
      origin.slice span = Text.without wrapped.inserted span.start (span.slice wrapped.text) ∧
      ∀ builder : Builder, builder.slice origin span =
        Enclosure.stripLines builder.enclosures
          (Text.without wrapped.inserted span.start (span.slice wrapped.text))
  bytesAscend : (wrapped.inserted.map (Text.byteOffset wrapped.text)).Pairwise (· < ·)
  bytes : ∀ position, position ≤ wrapped.text.length →
    Text.byteOffset wrapped.text position -
        ((wrapped.inserted.map (Text.byteOffset wrapped.text)).takeWhile
          (· < Text.byteOffset wrapped.text position)).length =
      Text.byteOffset source
        (Origin.suppliedOffset ⟨wrapped.text, source, wrapped.inserted⟩ position)

theorem utf8Size_inserted_weave {position : Nat} {text : Text} {spans : List Span}
    {mark : Char × Bool} (hmark : mark ∈ weave position text spans) (hinserted : mark.2 = true) :
    mark.1.utf8Size = 1 := by
  have hmem : mark.1 ∈ (weave position text spans).inserted :=
    List.mem_map_of_mem (List.mem_filter.mpr ⟨hmark, hinserted⟩)
  rw [inserted_weave, alternating, List.mem_flatten] at hmem
  obtain ⟨pair, hpair, hc⟩ := hmem
  rw [List.eq_of_mem_replicate hpair] at hc
  rcases List.mem_pair.mp hc with hc | hc <;> rw [hc] <;> rfl

/-- The offset map of a wrapped source is exact. -/
theorem wrapped_undoes (source : Text) (wrapped : Wrapped) (h : wrap? source = some wrapped) :
    Undoes wrapped source := by
  have hkept := kept_markedSource source
  have hinserted : (markedSource source).inserted = alternating (spans source).length :=
    inserted_weave 0 source (spans source)
  have hbytes : ∀ mark ∈ markedSource source, mark.2 = true → mark.1.utf8Size = 1 :=
    fun _ => utf8Size_inserted_weave
  rw [wrap?_eq] at h
  split at h
  · cases h
  cases h
  generalize markedSource source = marked at hkept hinserted hbytes
  subst hkept
  constructor
  case ascending => exact Marked.positions_pairwise 0 marked
  case paired => simp [Marked.length_positions, hinserted]
  case alternate =>
    intro k hk
    rw [Marked.getElem?_text_positions (List.getElem?_eq_getElem hk), hinserted]
    exact getElem?_alternating (by simpa [Marked.length_positions, hinserted] using hk)
  case without =>
    refine Marked.without_eq_kept fun i mark hi => ?_
    rw [Nat.zero_add]
    exact Marked.mem_positions_iff hi
  case slices =>
    intro span hstop
    rw [Marked.length_text] at hstop
    obtain ⟨hmono, hlast⟩ := Marked.suppliedOffset_origin_mono marked hstop
    have hslice := (Marked.slice_origin marked hstop).trans (Marked.without_slice marked span).symm
    exact ⟨hmono, hlast, hslice, fun builder => congrArg _ hslice⟩
  case bytesAscend => exact Marked.byteOffset_pairwise marked
  case bytes =>
    intro position hposition
    rw [Marked.length_text] at hposition
    exact Marked.byteOffset_suppliedOffset marked hbytes hposition

theorem wrapped_undoes_two_links :
    ∃ wrapped, wrap? "[a](ü c) [d](e f \"g\")".toList = some wrapped ∧
      Undoes wrapped "[a](ü c) [d](e f \"g\")".toList :=
  ⟨_, rfl, wrapped_undoes _ _ rfl⟩

end SpacedDestination

end Canonmark
