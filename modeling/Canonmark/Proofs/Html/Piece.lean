import Canonmark.Html.Piece
import Mathlib.Data.List.Basic

/-!
# Tags are found where they start first

HTML is cut at its tags and comments, from left to right: each tag starts at the first place
where one can start and ends at its first closing bracket, a comment at its first end.
-/

namespace Canonmark.Html

/-- A tag or a comment that ends where it can first. -/
inductive IsTag : Text → Prop
  | comment {inside : Text}
      (hfirst : ∀ before, (before ++ ['-', '-', '>']) <+: (inside ++ ['-', '-', '>']) →
        before = inside) :
      IsTag (['<', '!', '-', '-'] ++ inside ++ ['-', '-', '>'])
  | element {slash : Text} {letter : Char} {inside : Text} (hclosing : slash = [] ∨ slash = ['/'])
      (hletter : Ascii.isLetter letter = true) (hfirst : '>' ∉ inside) :
      IsTag ('<' :: slash ++ letter :: inside ++ ['>'])

/-- No tag starts in `text`, where `behind` follows it. -/
def Untagged (text behind : Text) : Prop :=
  ∀ before after, text = before ++ after → after ≠ [] → ∀ tag, IsTag tag →
    ¬tag <+: after ++ behind

/-- The pieces of a text: its tags, and the texts between them in which no tag starts. -/
inductive Cut : List Piece → Text → Prop
  | nil : Cut [] []
  | tag {tag behind : Text} {pieces : List Piece} (htag : IsTag tag) (hrest : Cut pieces behind) :
      Cut (.tag tag :: pieces) (tag ++ behind)
  | text {text behind : Text} {pieces : List Piece} (hsome : text ≠ [])
      (huntagged : Untagged text behind)
      (hwhole : ∀ next, pieces.head? ≠ some (.text next)) (hrest : Cut pieces behind) :
      Cut (.text text :: pieces) (text ++ behind)

theorem Cut.flatMap_source {pieces : List Piece} {html : Text} (h : Cut pieces html) :
    pieces.flatMap Piece.source = html := by
  induction h with
  | nil => rfl
  | tag _ _ ih => rw [List.flatMap_cons, ih]; rfl
  | text _ _ _ _ ih => rw [List.flatMap_cons, ih]; rfl

theorem IsTag.exists_cons {tag : Text} (h : IsTag tag) : ∃ rest, tag = '<' :: rest := by
  cases h with
  | comment => exact ⟨_, rfl⟩
  | element => exact ⟨_, rfl⟩

theorem Untagged.concat {text behind : Text} {c : Char} (h : Untagged text (c :: behind))
    (hlast : ∀ tag, IsTag tag → ¬tag <+: c :: behind) : Untagged (text ++ [c]) behind := by
  intro before after heq hsome tag htag
  obtain ⟨body, final, rfl⟩ := List.eq_nil_or_concat after |>.resolve_left hsome
  rw [List.concat_eq_append, ← List.append_assoc] at heq
  obtain ⟨rfl, hsame⟩ := List.append_inj' heq rfl
  cases hsame
  by_cases hshort : body = []
  · subst hshort
    exact hlast tag htag
  · rw [List.concat_eq_append, List.append_assoc]
    exact h before body rfl hshort tag htag

namespace Piece

theorem bracketEnd?_eq_some {text : Text} {n : Nat} (h : bracketEnd? text = some n) :
    ∃ inside behind, '>' ∉ inside ∧ text = inside ++ '>' :: behind ∧ n = inside.length + 1 := by
  induction text generalizing n with
  | nil => cases h
  | cons c rest ih =>
      rw [bracketEnd?] at h
      split at h
      · next hc =>
          cases h
          exact ⟨[], rest, List.not_mem_nil, by rw [hc]; rfl, rfl⟩
      · next hc =>
          obtain ⟨m, hm, rfl⟩ := Option.map_eq_some_iff.mp h
          obtain ⟨inside, behind, hfirst, rfl, rfl⟩ := ih hm
          refine ⟨c :: inside, behind, ?_, rfl, rfl⟩
          rintro (_ | ⟨_, hmem⟩)
          · exact hc rfl
          · exact hfirst hmem

theorem bracketEnd?_eq_none {text : Text} (h : bracketEnd? text = none) : '>' ∉ text := by
  induction text with
  | nil => exact List.not_mem_nil
  | cons c rest ih =>
      rw [bracketEnd?] at h
      split at h
      · cases h
      · next hc =>
          rintro (_ | ⟨_, hmem⟩)
          · exact hc rfl
          · exact ih (Option.map_eq_none_iff.mp h) hmem

theorem commentEnd?_eq_some {text : Text} {n : Nat} (h : commentEnd? text = some n) :
    ∃ inside behind, (∀ before, (before ++ ['-', '-', '>']) <+: (inside ++ ['-', '-', '>']) →
      before = inside) ∧ text = inside ++ ['-', '-', '>'] ++ behind ∧ n = inside.length + 3 := by
  induction text generalizing n with
  | nil => cases h
  | cons c rest ih =>
      rw [commentEnd?] at h
      split at h
      · next hends =>
          cases h
          obtain ⟨behind, hrest_eq⟩ := List.isPrefixOf_iff_prefix.mp hends
          refine ⟨[], behind, fun before hprefix => ?_, hrest_eq.symm, rfl⟩
          have hshort := hprefix.length_le
          simp only [List.length_append, List.length_nil, Nat.zero_add] at hshort
          exact List.length_eq_zero_iff.mp (by omega)
      · next hgoes =>
          obtain ⟨m, hm, rfl⟩ := Option.map_eq_some_iff.mp h
          obtain ⟨inside, behind, hfirst, rfl, rfl⟩ := ih hm
          refine ⟨c :: inside, behind, fun before hprefix => ?_, rfl, by simp⟩
          cases before with
          | nil =>
              refine absurd (List.isPrefixOf_iff_prefix.mpr ?_) hgoes
              exact hprefix.trans ⟨behind, rfl⟩
          | cons d before =>
              obtain ⟨rfl, htails⟩ := List.cons_prefix_cons.mp hprefix
              rw [hfirst before htails]

theorem commentEnd?_eq_none {text : Text} (h : commentEnd? text = none) (inside : Text) :
    ¬(inside ++ ['-', '-', '>']) <+: text := by
  induction text generalizing inside with
  | nil =>
      intro hprefix
      have := hprefix.length_le
      simp at this
  | cons c rest ih =>
      rw [commentEnd?] at h
      split at h
      · cases h
      · next hgoes =>
          intro hprefix
          cases inside with
          | nil => exact hgoes (List.isPrefixOf_iff_prefix.mpr hprefix)
          | cons d inside =>
              exact ih (Option.map_eq_none_iff.mp h) inside (List.cons_prefix_cons.mp hprefix).2

theorem tail?_eq_some {text : Text} {n : Nat} (h : tail? text = some n) :
    IsTag ('<' :: text.take n) := by
  fun_cases tail? text with
  | case1 rest =>
      obtain ⟨m, hm, rfl⟩ := Option.map_eq_some_iff.mp h
      obtain ⟨inside, behind, hfirst, rfl, rfl⟩ := commentEnd?_eq_some hm
      simpa [List.take_length_add_append] using IsTag.comment hfirst
  | case2 c rest hletter =>
      rw [tail?, if_pos hletter] at h
      obtain ⟨m, hm, rfl⟩ := Option.map_eq_some_iff.mp h
      obtain ⟨inside, behind, hfirst, rfl, rfl⟩ := bracketEnd?_eq_some hm
      simpa [List.take_length_add_append] using IsTag.element (.inr rfl) hletter hfirst
  | case3 c rest hletter => simp [tail?, hletter] at h
  | case4 c rest _ _ hletter =>
      rw [tail?] at h
      · rw [if_pos hletter] at h
        obtain ⟨m, hm, rfl⟩ := Option.map_eq_some_iff.mp h
        obtain ⟨inside, behind, hfirst, rfl, rfl⟩ := bracketEnd?_eq_some hm
        simpa [List.take_length_add_append] using IsTag.element (.inl rfl) hletter hfirst
      all_goals assumption
  | case5 => simp_all [tail?]
  | case6 => cases h

theorem tail?_eq_none {text tag : Text} (h : tail? text = none) (htag : IsTag tag) :
    ¬tag <+: '<' :: text := by
  intro hprefix
  cases htag with
  | @comment inside hfirst =>
      obtain ⟨behind, hwhole⟩ := hprefix
      obtain rfl : text = '!' :: '-' :: '-' :: (inside ++ ['-', '-', '>'] ++ behind) := by
        simpa using hwhole.symm
      exact commentEnd?_eq_none (Option.map_eq_none_iff.mp h) inside ⟨behind, rfl⟩
  | @element slash letter inside hclosing hletter hfirst =>
      obtain ⟨behind, hwhole⟩ := hprefix
      obtain rfl : text = slash ++ letter :: (inside ++ '>' :: behind) := by
        simpa using hwhole.symm
      have hcloses : bracketEnd? (inside ++ '>' :: behind) ≠ none := fun hnone =>
        bracketEnd?_eq_none hnone (by simp)
      rcases hclosing with rfl | rfl
      · have hnotMark : letter ≠ '!' := by rintro rfl; exact absurd hletter (by decide)
        have hnotSlash : letter ≠ '/' := by rintro rfl; exact absurd hletter (by decide)
        simp [tail?, hletter, hnotMark, hnotSlash, hcloses] at h
      · simp [tail?, hletter, hcloses] at h

theorem cut_textPiece {kept behind : Text} {pieces : List Piece} (hcut : Cut pieces behind)
    (huntagged : Untagged kept.reverse behind)
    (hwhole : ∀ next, pieces.head? ≠ some (.text next)) :
    Cut (textPiece kept ++ pieces) (kept.reverse ++ behind) := by
  rw [textPiece]
  split
  · next hnone =>
      rw [List.isEmpty_iff.mp hnone]
      exact hcut
  · next hnonempty =>
      refine Cut.text (fun hnone => hnonempty ?_) huntagged hwhole hcut
      simpa using hnone

theorem cut_splitFrom (kept : Text) (skip : Nat) (text : Text)
    (huntagged : Untagged kept.reverse (text.drop skip)) :
    Cut (splitFrom kept skip text) (kept.reverse ++ text.drop skip) := by
  fun_induction splitFrom kept skip text with
  | case1 kept skip =>
      rw [List.drop_nil] at huntagged ⊢
      simpa using cut_textPiece .nil huntagged (by simp)
  | case2 kept skip c rest ih => exact ih huntagged
  | case3 kept c rest length htag' ih =>
      split at htag'
      · next hopens =>
          have hlater := Cut.tag (tail?_eq_some htag') (ih (by
            intro before after heq hsome
            exact absurd (List.append_eq_nil_iff.mp heq.symm).2 hsome))
          rw [← hopens, List.reverse_nil, List.nil_append, List.cons_append,
            List.take_append_drop] at hlater
          exact cut_textPiece hlater huntagged (by simp)
      · cases htag'
  | case4 kept c rest htag' ih =>
      have hlater := ih (by
        rw [List.reverse_cons]
        refine Untagged.concat huntagged fun found htag => ?_
        split at htag'
        · next hopens =>
            rw [hopens]
            exact tail?_eq_none htag' htag
        · next hother =>
            obtain ⟨_, rfl⟩ := htag.exists_cons
            exact fun hprefix => hother (List.cons_prefix_cons.mp hprefix).1.symm)
      simpa using hlater

theorem cut_split (html : Text) : Cut (split html) html :=
  cut_splitFrom [] 0 html (by
    intro before after heq hsome
    exact absurd (List.append_eq_nil_iff.mp heq.symm).2 hsome)

end Piece

end Canonmark.Html
