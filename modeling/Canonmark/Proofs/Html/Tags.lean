import Canonmark.Proofs.Html.Settling
import Canonmark.Proofs.Source.Closing

/-!
# Tags with brackets in their attributes

A tag of HTML ends behind its attributes, and quotes around a value may hold closing brackets.
HTML is cut at its tags by their first bracket, however, so that only the part of a tag up to
there is kept for sure. The rest is taken for text: it is kept where it holds no delimiter of
emphasis, as it does in every tag without a bracket in its attributes.
-/

namespace Canonmark.Html

namespace Exchanged

theorem delimiter_width_pos {tag : Source.Tag} {delimiter : Delimiter}
    (his : Delimiter.ofTag? tag = some delimiter) : 0 < delimiter.width := by
  cases tag <;> simp only [Delimiter.ofTag?, Option.some.injEq, reduceCtorEq] at his
  all_goals subst his; decide

theorem append_left {text behind out : Text} (h : Exchanged (text ++ behind) out)
    (hfree : ∀ c ∈ text, c ≠ '*' ∧ c ≠ '_') :
    ∃ after, out = text ++ after ∧ Exchanged behind after := by
  induction text generalizing out with
  | nil => exact ⟨out, rfl, h⟩
  | cons c text ih =>
      obtain ⟨hhere, hlater⟩ := List.forall_mem_cons.mp hfree
      rw [List.cons_append] at h
      generalize hwhole : c :: (text ++ behind) = source at h
      cases h with
      | nil => cases hwhole
      | keep d hrest =>
          obtain ⟨rfl, rfl⟩ := List.cons.inj hwhole
          obtain ⟨after, rfl, hexchanged⟩ := ih hrest hlater
          exact ⟨after, rfl, hexchanged⟩
      | @element tag delimiter d inner inside rest out his hchar hfirst hsecond =>
          obtain ⟨n, hwide⟩ := Nat.exists_eq_add_one_of_ne_zero (delimiter_width_pos his).ne'
          rw [hwide, List.replicate_succ] at hwhole
          obtain ⟨rfl, -⟩ := List.cons.inj hwhole
          exact absurd hchar (not_or.mpr hhere)

theorem of_written {literalDepth : Nat} {pieces : List Piece} {out : Text}
    (h : Written literalDepth pieces out) : Exchanged (pieces.flatMap Piece.source) out := by
  induction h with
  | nil => exact .nil
  | tag tag _ ih => exact (refl tag).append ih
  | literal _ text _ ih => exact (refl text).append ih
  | text hexchanged _ ih => exact hexchanged.append ih

end Exchanged

/-- A tag up to its first closing bracket. -/
inductive IsFront : Text → Prop
  | intro {slash : Text} {letter : Char} {inside : Text} (hclosing : slash = [] ∨ slash = ['/'])
      (hletter : Ascii.isLetter letter = true) (hfirst : '>' ∉ inside) :
      IsFront ('<' :: slash ++ letter :: inside ++ ['>'])

theorem IsFront.isTag {front : Text} (h : IsFront front) : IsTag front := by
  obtain ⟨hclosing, hletter, hfirst⟩ := h
  exact .element hclosing hletter hfirst

theorem bracket_notMem {slash inside : Text} {letter : Char} (hclosing : slash = [] ∨ slash = ['/'])
    (hletter : Ascii.isLetter letter = true) (hfirst : '>' ∉ inside) :
    '>' ∉ '<' :: slash ++ letter :: inside := by
  have hnotBracket : letter ≠ '>' := by rintro rfl; exact absurd hletter (by decide)
  rcases hclosing with rfl | rfl <;> simp [hfirst, hnotBracket.symm]

theorem IsFront.eq_nil_of_append {front before behind : Text} (h : IsFront front)
    (hsplit : front = before ++ '>' :: behind) : behind = [] := by
  obtain ⟨hclosing, hletter, hfirst⟩ := h
  have hfree := bracket_notMem hclosing hletter hfirst
  by_contra hsome
  obtain ⟨body, last, rfl⟩ := List.eq_nil_or_concat behind |>.resolve_left hsome
  rw [List.concat_eq_append, ← List.cons_append, ← List.append_assoc] at hsplit
  obtain ⟨hwhole, -⟩ := List.append_inj' hsplit rfl
  exact hfree (hwhole ▸ by simp)

theorem IsTag.exists_concat {tag : Text} (h : IsTag tag) : ∃ inside, tag = inside ++ ['>'] := by
  cases h with
  | @comment inside => exact ⟨['<', '!', '-', '-'] ++ inside ++ ['-', '-'], by simp⟩
  | element => exact ⟨_, rfl⟩

/-- Of two ways to cut a text, the second cuts behind the first part, or inside of it. -/
theorem cut_behind_or_inside {text rest before behind : Text}
    (hwhole : text ++ rest = before ++ behind) :
    (∃ between, before = text ++ between ∧ rest = between ++ behind) ∨
      ∃ inner, inner ≠ [] ∧ text = before ++ inner ∧ behind = inner ++ rest := by
  rcases List.append_eq_append_iff.mp hwhole with hbehind | ⟨inner, hsplit, hlater⟩
  · exact .inl hbehind
  · by_cases hnone : inner = []
    · subst hnone
      exact .inl ⟨[], by simpa using hsplit.symm, by simpa using hlater.symm⟩
    · exact .inr ⟨inner, hnone, hsplit, hlater⟩

theorem IsFront.within {front before inner behind rest : Text} (h : IsFront front)
    (htag : IsTag (before ++ inner)) (hsome : inner ≠ [])
    (hsplit : front ++ behind = inner ++ rest) :
    ∃ after, inner = front ++ after ∧ behind = after ++ rest := by
  rcases List.append_eq_append_iff.mp hsplit with hlonger | ⟨beyond, hsplit, hlater⟩
  · exact hlonger
  · obtain ⟨body, last, rfl⟩ := List.eq_nil_or_concat inner |>.resolve_left hsome
    obtain ⟨inside, hends⟩ := htag.exists_concat
    rw [List.concat_eq_append, ← List.append_assoc] at hends
    obtain ⟨-, hfinal⟩ := List.append_inj' hends rfl
    cases hfinal
    rw [List.concat_eq_append, List.append_assoc] at hsplit
    obtain rfl := h.eq_nil_of_append hsplit
    exact ⟨[], by simpa using hsplit.symm, by simpa using hlater.symm⟩

/--
The front of a tag lies in one piece of the HTML, a tag or a comment, which is kept: in the text
between tags it would have been found, and no piece ends in the middle of it.
-/
theorem Written.keeps_front {front html before behind out : Text} {pieces : List Piece}
    {literalDepth : Nat} (hfront : IsFront front) (hcut : Cut pieces html)
    (hwritten : Written literalDepth pieces out) (hwhole : html = before ++ (front ++ behind)) :
    ∃ before' behind', out = before' ++ (front ++ behind') ∧ Exchanged before before' ∧
      Exchanged behind behind' := by
  induction hcut generalizing before literalDepth out with
  | nil =>
      obtain ⟨_, rfl⟩ := hfront.isTag.exists_cons
      simp at hwhole
  | @tag tag rest pieces htag hcut ih =>
      cases hwritten with
      | @tag _ _ _ out hlater =>
      rcases cut_behind_or_inside hwhole with ⟨between, rfl, hsplit⟩ | ⟨inner, hsome, hends, hsplit⟩
      · obtain ⟨before', behind', rfl, hfirst, hsecond⟩ := ih hlater hsplit
        exact ⟨tag ++ before', behind', by simp, (Exchanged.refl tag).append hfirst, hsecond⟩
      · obtain ⟨after, rfl, rfl⟩ := hfront.within (hends ▸ htag) hsome hsplit
        refine ⟨before, after ++ out, by simp [hends], .refl before, ?_⟩
        rw [← hcut.flatMap_source]
        exact (Exchanged.refl after).append (.of_written hlater)
  | @text text rest pieces _ huntagged _ hcut ih =>
      obtain ⟨marked, after, depth, rfl, hexchanged, hlater⟩ :
          ∃ marked after depth, out = marked ++ after ∧ Exchanged text marked ∧
            Written depth pieces after := by
        cases hwritten with
        | literal _ _ hlater => exact ⟨_, _, _, rfl, .refl _, hlater⟩
        | text hexchanged hlater => exact ⟨_, _, _, rfl, hexchanged, hlater⟩
      rcases cut_behind_or_inside hwhole with ⟨between, rfl, hsplit⟩
        | ⟨inner, hsome, hholds, hsplit⟩
      · obtain ⟨before', behind', rfl, hfirst, hsecond⟩ := ih hlater hsplit
        exact ⟨marked ++ before', behind', by simp, hexchanged.append hfirst, hsecond⟩
      · exact absurd ⟨behind, hsplit⟩ (huntagged before inner hholds hsome front hfront.isTag)

/-- A tag is kept up to its first bracket, whatever stands around it. -/
theorem markEmphasis_keeps_front {front : Text} (hfront : IsFront front) (before behind : Text) :
    ∃ before' behind', markEmphasis (before ++ (front ++ behind)) = before' ++ (front ++ behind') ∧
      Exchanged before before' ∧ Exchanged behind behind' :=
  Written.keeps_front hfront (Piece.cut_split _) (replaced_markEmphasis _).2 rfl

def IsReadTag (tag : Text) : Prop :=
  ∃ inside reading, tag = '<' :: inside ∧
    Source.Tag.read? (some fun _ => 0) inside = some reading ∧ reading.length = inside.length

def pastBracket (tag : Text) : Text := (tag.dropWhile (· ≠ '>')).drop 1

theorem exists_name_of_read? {breaks : Source.LineBreaks} {text : Text} {reading : Source.Reading}
    (h : Source.Tag.read? breaks text = some reading) :
    ∃ slash letter rest, text = slash ++ letter :: rest ∧ (slash = [] ∨ slash = ['/']) ∧
      Ascii.isLetter letter = true := by
  have hnamed {text : Text} (h : Source.countWhile Ascii.isLetter text ≠ 0) :
      ∃ letter rest, text = letter :: rest ∧ Ascii.isLetter letter = true := by
    cases text with
    | nil => exact absurd rfl h
    | cons c rest =>
        by_cases hletter : Ascii.isLetter c = true
        · exact ⟨c, rest, rfl, hletter⟩
        · simp [Source.countWhile, hletter] at h
  unfold Source.Tag.read? at h
  extract_lets fuel closing reading name named' at h
  split at h
  · cases h
  next hsome =>
  obtain ⟨letter, rest, hstarts, hletter⟩ := hnamed hsome
  by_cases hslash : text.head? = .some '/'
  · obtain ⟨behind, rfl⟩ := List.head?_eq_some_iff.mp hslash
    refine ⟨['/'], letter, rest, ?_, .inr rfl, hletter⟩
    simpa [reading, closing, Source.Reading.keep, Source.Reading.start] using hstarts
  · refine ⟨[], letter, rest, ?_, .inl rfl, hletter⟩
    simpa [reading, closing, hslash, Source.Reading.keep, Source.Reading.start] using hstarts

theorem IsReadTag.exists_front {tag : Text} (h : IsReadTag tag) :
    ∃ front, IsFront front ∧ tag = front ++ pastBracket tag := by
  obtain ⟨inside, reading, rfl, hread, -⟩ := h
  obtain ⟨n, -, hcloses⟩ := Source.Tag.exists_read? hread
  obtain ⟨slash, letter, rest, rfl, hclosing, hletter⟩ := exists_name_of_read? hread
  have hnotBracket : letter ≠ '>' := by rintro rfl; exact absurd hletter (by decide)
  have hmem : '>' ∈ rest := by
    have := List.mem_of_getElem? hcloses
    rcases hclosing with rfl | rfl <;> simpa [hnotBracket.symm] using this
  obtain ⟨inside, past, rfl, hfirst⟩ := List.eq_append_cons_of_mem hmem
  have hsplit : '<' :: (slash ++ letter :: (inside ++ '>' :: past)) =
      ('<' :: slash ++ letter :: inside) ++ '>' :: past := by simp
  have hfree : ∀ c ∈ '<' :: slash ++ letter :: inside, decide (c ≠ '>') = true := fun c hmem =>
    decide_eq_true fun hbracket => bracket_notMem hclosing hletter hfirst (hbracket ▸ hmem)
  have hbehind : pastBracket ('<' :: (slash ++ letter :: (inside ++ '>' :: past))) = past := by
    rw [pastBracket, hsplit, List.dropWhile_append_of_pos hfree]
    rfl
  refine ⟨_, .intro hclosing hletter hfirst, ?_⟩
  rw [hbehind, hsplit]
  simp

/--
A tag is kept if no delimiter stands behind the first bracket in it, so every tag without a
bracket in its attributes.
-/
theorem markEmphasis_keeps_tag {tag : Text} (htag : IsReadTag tag)
    (hfree : ∀ c ∈ pastBracket tag, c ≠ '*' ∧ c ≠ '_') (before behind : Text) :
    ∃ before' behind', markEmphasis (before ++ (tag ++ behind)) = before' ++ (tag ++ behind') ∧
      Exchanged before before' ∧ Exchanged behind behind' := by
  obtain ⟨front, hfront, hwhole⟩ := htag.exists_front
  obtain ⟨before', past, hsame, hfirst, hsecond⟩ :=
    markEmphasis_keeps_front hfront before (pastBracket tag ++ behind)
  obtain ⟨behind', rfl, hexchanged⟩ := hsecond.append_left hfree
  refine ⟨before', behind', ?_, hfirst, hexchanged⟩
  rw [hwhole, List.append_assoc, List.append_assoc]
  exact hsame

/-- What is quoted behind a bracket is taken for text, and its delimiters for emphasis. -/
example : markEmphasis "<a title=\"> *x*\">y</a>".toList =
    "<a title=\"> <em>x</em>\">y</a>".toList := by decide +kernel

end Canonmark.Html
