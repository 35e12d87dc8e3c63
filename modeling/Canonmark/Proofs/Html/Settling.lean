import Canonmark.Proofs.Html.Emphasis
import Mathlib.Dynamics.FixedPoints.Basic

/-!
# Marking again

HTML is left alone exactly when no emphasis is found in the texts between its tags. The tags that
are written cut a text at the emphasis in it, so that delimiters which a link or code around the
emphasis protected may be found when the HTML is marked again. Each pass that changes anything
takes away two delimiters at least, so that repeated passes come to an end.
-/

namespace Canonmark.Html

open Source (Located emphases)

/-- The texts of pieces outside of literal content, behind as many literal elements as are open. -/
def readTexts (literalDepth : Nat) : List Piece → List Text
  | [] => []
  | .text text :: rest =>
      (if literalDepth = 0 then [text] else []) ++ readTexts literalDepth rest
  | .tag tag :: rest => readTexts (Nesting.literalDepthAfter literalDepth tag) rest

def withoutIndentation (text : Text) : Text :=
  (Text.lineSegments text).flatMap fun line => line.dropWhile fun c => c = ' ' || c = '\t'

def emphasisIn (read : Text → List Located) (text : Text) : List (Delimiter × Span) :=
  emphasisSpans (read (withoutIndentation text))

theorem map_unindentedLine (position : Nat) (line : Text) :
    (unindentedLine position line).map (·.2) = line.dropWhile fun c => c = ' ' || c = '\t' := by
  induction line generalizing position with
  | nil => rfl
  | cons c rest ih =>
      rw [unindentedLine_cons, List.dropWhile_cons]
      by_cases hblank : c = ' ' ∨ c = '\t'
      · rw [if_pos hblank, ih, if_pos (by simpa using hblank)]
      · rw [if_neg hblank, if_neg (by simpa using hblank)]
        simp [Function.comp_def, List.zipIdx_map_fst]

theorem map_unindented (position : Nat) (text : Text) :
    (unindented position text).map (·.2) = withoutIndentation text := by
  rw [unindented, withoutIndentation]
  induction Text.lineSegments text generalizing position with
  | nil => rfl
  | cons line lines ih =>
      rw [unindentedFrom, List.map_append, map_unindentedLine, ih, List.flatMap_cons]

theorem mem_of_mem_withoutIndentation {text : Text} {c : Char} (h : c ∈ withoutIndentation text) :
    c ∈ text := by
  obtain ⟨line, hline, hmem⟩ := List.mem_flatMap.mp h
  rw [← Text.flatten_lineSegments text]
  exact List.mem_flatten.mpr ⟨line, hline, (List.dropWhile_sublist _).mem hmem⟩

section

variable {read : Text → List Located}

theorem emphasisIn_eq_nil (hread : PairsEmphasis read) {text : Text}
    (h : (text.any fun c => c = '*' || c = '_') = false) : emphasisIn read text = [] := by
  have hpaired := hread (withoutIndentation text)
  rw [emphasisIn, emphasisSpans_eq]
  generalize hspans : emphases _ = spans at hpaired ⊢
  cases hpaired with
  | nil => rfl
  | @pair _ _ width _ _ _ c _ hchar hwide hopening =>
      have hstands := hopening 0 (by omega)
      have hmem := mem_of_mem_withoutIndentation (List.mem_of_getElem? hstands)
      have hfree := List.any_eq_false.mp h c hmem
      simp [hchar] at hfree

theorem emphasisEdits_eq_nil_iff (hread : PairsEmphasis read) {position : Nat} {text : Text} :
    emphasisEdits read position text = [] ↔ emphasisIn read text = [] := by
  rw [emphasisEdits]
  split
  · simp only [map_unindented, List.flatMap_eq_nil_iff]
    refine ⟨fun h => List.eq_nil_iff_forall_not_mem.mpr fun found hmem => ?_, fun h => ?_⟩
    · have hedits := h found hmem
      simp [Delimiter.edits] at hedits
    · rw [← emphasisIn, h]
      simp
  · next hfree => simpa using emphasisIn_eq_nil hread (by simpa using hfree)

theorem pieceEdits_eq_nil_iff (hread : PairsEmphasis read) {position literalDepth : Nat}
    {pieces : List Piece} :
    pieceEdits read position literalDepth pieces = [] ↔
      ∀ text ∈ readTexts literalDepth pieces, emphasisIn read text = [] := by
  induction pieces generalizing position literalDepth with
  | nil => simp [pieceEdits, readTexts]
  | cons piece rest ih =>
      cases piece with
      | tag tag => rw [pieceEdits, readTexts, ih]
      | text text =>
          rw [pieceEdits, readTexts, List.append_eq_nil_iff, List.forall_mem_append, ih]
          refine and_congr_left' ?_
          split
          · rw [emphasisEdits_eq_nil_iff hread, List.forall_mem_singleton]
          · simp

end

def Lengthens (edit : Edit) : Prop := edit.span.stop - edit.span.start < edit.text.length

theorem length_of_replaced {text : Text} {start stop : Nat} {edits : List Edit} {out : Text}
    (h : Splice.Replaced text start stop edits out) (hlonger : ∀ edit ∈ edits, Lengthens edit) :
    stop - start + edits.length ≤ out.length := by
  induction h with
  | keep hle hinside => rw [Text.length_slice hle hinside]; exact Nat.le_refl _
  | edit new hlt hinside => exact hlonger _ List.mem_cons_self
  | append hfirst hsecond ih hlater =>
      obtain ⟨_, hbefore⟩ := hfirst.exists_sorted
      obtain ⟨_, hbehind⟩ := hsecond.exists_sorted
      have := ih fun edit hmem => hlonger edit (List.mem_append_left _ hmem)
      have := hlater fun edit hmem => hlonger edit (List.mem_append_right _ hmem)
      have := hbefore.le
      have := hbehind.le
      rw [List.length_append, List.length_append]
      omega
  | perm horder _ ih =>
      rw [← horder.length_eq]
      exact ih fun edit hmem => hlonger edit (horder.mem_iff.mp hmem)

theorem lengthens_edits (width : Nat) (origin : Nat → Nat) (span : Span) :
    ∀ edit ∈ (Delimiter.ofWidth width).edits origin span, Lengthens edit := by
  have hshorter : (Delimiter.ofWidth width).width < (Delimiter.ofWidth width).opening.length ∧
      (Delimiter.ofWidth width).width < (Delimiter.ofWidth width).closing.length := by
    rw [Delimiter.ofWidth]
    split <;> decide
  intro edit hmem
  simp only [Delimiter.edits, List.mem_cons, List.not_mem_nil, or_false] at hmem
  rcases hmem with rfl | rfl
  · simpa [Lengthens, Edit.replacement] using hshorter.1
  · simpa [Lengthens, Edit.replacement] using hshorter.2

theorem lengthens_emphasisEdits (read : Text → List Located) (position : Nat) (text : Text) :
    ∀ edit ∈ emphasisEdits read position text, Lengthens edit := by
  rw [emphasisEdits]
  split
  · intro edit hmem
    simp only [emphasisSpans_eq, List.flatMap_map] at hmem
    obtain ⟨⟨width, span⟩, -, hmem⟩ := List.mem_flatMap.mp hmem
    exact lengthens_edits width _ span edit hmem
  · simp

theorem lengthens_pieceEdits (read : Text → List Located) (position literalDepth : Nat)
    (pieces : List Piece) :
    ∀ edit ∈ pieceEdits read position literalDepth pieces, Lengthens edit := by
  induction pieces generalizing position literalDepth with
  | nil => simp [pieceEdits]
  | cons piece rest ih =>
      cases piece with
      | tag tag => exact ih _ _
      | text text =>
          refine List.forall_mem_append.mpr ⟨?_, ih _ _⟩
          split
          · exact lengthens_emphasisEdits _ _ _
          · simp

theorem replaced_markEmphasis (html : Text) :
    Splice.Replaced html 0 html.length (pieceEdits readPlain 0 0 (Piece.split html))
        (markEmphasis html) ∧
      Written 0 (Piece.split html) (markEmphasis html) := by
  have hwhole : html = [] ++ (Piece.split html).flatMap Piece.source :=
    (Piece.cut_split html).flatMap_source.symm
  obtain ⟨out, hreplaced, hwritten⟩ :=
    @exists_written _ pairsEmphasis_readPlain html [] (Piece.split html) 0 hwhole
  have hsame : markEmphasis html = out := hreplaced.apply_eq
  rw [hsame]
  exact ⟨hreplaced, hwritten⟩

/--
HTML is left alone exactly when none of the texts between its tags, literal content apart, holds
emphasis. So marking it once more changes nothing exactly when none is found in what was written.
-/
theorem markEmphasis_eq_self_iff {html : Text} :
    markEmphasis html = html ↔
      ∀ text ∈ readTexts 0 (Piece.split html), emphasisIn readPlain text = [] := by
  rw [← @pieceEdits_eq_nil_iff _ pairsEmphasis_readPlain 0]
  refine ⟨fun hsame => ?_, fun hnone => ?_⟩
  · have hgrows := length_of_replaced (replaced_markEmphasis html).1 (lengthens_pieceEdits _ 0 0 _)
    rw [hsame] at hgrows
    exact List.eq_nil_of_length_eq_zero (by omega)
  · rw [markEmphasis, markEmphasisWith, hnone]
    rfl

/-- A link hides the delimiters in its destination only until the emphasis in it becomes tags. -/
example : markEmphasis "[*a*](*b*)".toList = "[<em>a</em>](*b*)".toList ∧
    markEmphasis "[<em>a</em>](*b*)".toList = "[<em>a</em>](<em>b</em>)".toList :=
  ⟨by decide +kernel, by decide +kernel⟩

def delimiters (text : Text) : Nat := text.countP fun c => c = '*' || c = '_'

@[simp] theorem delimiters_append (text behind : Text) :
    delimiters (text ++ behind) = delimiters text + delimiters behind :=
  List.countP_append

theorem delimiters_replicate {c : Char} (hchar : c = '*' ∨ c = '_') (n : Nat) :
    delimiters (List.replicate n c) = n := by
  rw [delimiters, List.countP_replicate, if_pos (by simpa using hchar)]

/-- `out` is `text`, or it has lost the delimiters of an element. -/
def Spends (text out : Text) : Prop := out = text ∨ delimiters out + 2 ≤ delimiters text

namespace Spends

variable {text out behind after : Text}

theorem le (h : Spends text out) : delimiters out ≤ delimiters text := by
  rcases h with rfl | hless
  · exact Nat.le_refl _
  · omega

theorem append (h : Spends text out) (hlater : Spends behind after) :
    Spends (text ++ behind) (out ++ after) := by
  have hfirst := h.le
  have hsecond := hlater.le
  rcases h with rfl | hless
  · rcases hlater with rfl | hless
    · exact .inl rfl
    · exact .inr (by rw [delimiters_append, delimiters_append]; omega)
  · exact .inr (by rw [delimiters_append, delimiters_append]; omega)

theorem of_exchanged (h : Exchanged text out) : Spends text out := by
  induction h with
  | nil => exact .inl rfl
  | keep c _ ih => exact append (.inl (Eq.refl [c])) ih
  | @element tag delimiter c inner inside behind out his hchar _ _ ih ih' =>
      have htags : 1 ≤ delimiter.width ∧ delimiters delimiter.opening = 0 ∧
          delimiters delimiter.closing = 0 := by
        cases tag <;> simp only [Delimiter.ofTag?, Option.some.injEq, reduceCtorEq] at his
        all_goals subst his; decide
      have hfirst := ih.le
      have hsecond := ih'.le
      right
      simp only [delimiters_append, delimiters_replicate hchar]
      omega

theorem of_written {literalDepth : Nat} {pieces : List Piece}
    (h : Written literalDepth pieces out) : Spends (pieces.flatMap Piece.source) out := by
  induction h with
  | nil => exact .inl rfl
  | tag tag _ ih => exact append (.inl (Eq.refl tag)) ih
  | literal _ text _ ih => exact append (.inl (Eq.refl text)) ih
  | text hexchanged _ ih => exact append (of_exchanged hexchanged) ih

end Spends

theorem spends_markEmphasis (html : Text) : Spends html (markEmphasis html) := by
  have hspends := Spends.of_written (replaced_markEmphasis html).2
  rwa [(Piece.cut_split html).flatMap_source] at hspends

/-- After as many passes as half the delimiters, nothing changes any more. -/
theorem markEmphasis_iterate {html : Text} {passes : Nat} (henough : delimiters html / 2 ≤ passes) :
    Function.IsFixedPt markEmphasis (markEmphasis^[passes] html) := by
  induction passes generalizing html with
  | zero =>
      rcases spends_markEmphasis html with hsame | hless
      · exact hsame
      · omega
  | succ passes ih =>
      rw [Function.iterate_succ_apply]
      rcases spends_markEmphasis html with hsame | hless
      · have hfixed : Function.IsFixedPt markEmphasis html := hsame
        rw [hsame, hfixed.iterate passes]
        exact hfixed
      · exact ih (by omega)

end Canonmark.Html
