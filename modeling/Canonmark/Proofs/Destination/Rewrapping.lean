import Canonmark.Proofs.Destination.Searched
import Canonmark.Proofs.Text.FencedLines

/-!
# Nothing is wrapped twice

A wrapped source is searched in the steps in which its source was searched: its lines are the
lines of the source with brackets in them, the same lines are fenced, and no step of the search
of a line is changed by brackets. What was wrapped starts with a bracket now and is left alone.
-/

namespace Canonmark

open Marked

namespace FencedLines

theorem stripQuotes_bracket (front : Text) :
    ∃ inner, ∀ fuel rest, front.length ≤ fuel →
      stripQuotes fuel (front ++ ']' :: rest) = inner ++ ']' :: rest := by
  induction hsize : front.length using Nat.strong_induction_on generalizing front with
  | _ n ih =>
  subst hsize
  have hspaces (rest : Text) :
      (front ++ ']' :: rest).dropWhile (· = ' ') = front.dropWhile (· = ' ') ++ ']' :: rest :=
    Text.dropWhile_stop (by decide) front rest
  have hshorter : (front.dropWhile (· = ' ')).length ≤ front.length :=
    (List.dropWhile_suffix _).length_le
  by_cases hquoted : (front.dropWhile (· = ' ')).head? = some '>'
  · obtain ⟨behind, hsplit⟩ := List.head?_eq_some_iff.mp hquoted
    rw [hsplit, List.length_cons] at hshorter
    obtain ⟨inner, hsame⟩ := ih behind.length hshorter behind rfl
    refine ⟨inner, fun fuel rest henough => ?_⟩
    obtain ⟨fuel, rfl⟩ := Nat.exists_eq_succ_of_ne_zero (show fuel ≠ 0 by omega)
    rw [stripQuotes, hspaces, hsplit]
    exact hsame fuel rest (by omega)
  · refine ⟨front, fun fuel rest _ => stripQuotes_eq_self ?_ fuel⟩
    rw [hspaces]
    cases hsplit : front.dropWhile (· = ' ') with
    | nil => simp
    | cons c behind => simpa [hsplit] using hquoted

theorem content_bracket (front : Text) :
    ∃ inner, ∀ rest, content (front ++ ']' :: rest) = inner ++ ']' :: rest := by
  obtain ⟨inner, hsame⟩ := stripQuotes_bracket front
  refine ⟨inner.dropWhile Unicode.isWhitespace, fun rest => ?_⟩
  rw [content, hsame _ rest (by simp), Text.dropWhile_stop (by decide)]

theorem opening?_behind {front first second : Text} (h : opening? (front ++ ']' :: first) = none)
    (hticks : '\x60' ∈ first → '\x60' ∈ second) : opening? (front ++ ']' :: second) = none := by
  obtain ⟨inner, hsame⟩ := content_bracket front
  cases inner with
  | nil => simp [opening?, hsame]
  | cons c inner =>
      simp only [opening?, hsame, List.cons_append] at h ⊢
      by_cases hfence : c = '\x60' ∨ c = '~'
      · have hother : decide (']' = c) = false := by
          rcases hfence with rfl | rfl
          all_goals rfl
        have hrun (rest : Text) :
            (inner ++ ']' :: rest).takeWhile (· = c) = inner.takeWhile (· = c) :=
          Text.takeWhile_stop hother inner rest
        have hbehind (rest : Text) :
            (inner ++ ']' :: rest).drop (inner.takeWhile (· = c)).length
              = inner.dropWhile (· = c) ++ ']' :: rest := by
          rw [← hrun rest, Text.drop_length_takeWhile, Text.dropWhile_stop hother]
        have hcontained : (inner.dropWhile (· = c) ++ ']' :: second).contains '\x60' = false →
            (inner.dropWhile (· = c) ++ ']' :: first).contains '\x60' = false := by
          simp only [List.contains_eq_mem, decide_eq_false_iff_not, List.mem_append,
            List.mem_cons, not_or]
          exact fun ⟨hfront, hother, hrest⟩ => ⟨hfront, hother, fun hmem => hrest (hticks hmem)⟩
        rw [hrun, Nat.add_sub_cancel, hbehind] at h ⊢
        simp only [ite_eq_right_iff, reduceCtorEq, imp_false, Bool.and_eq_true,
          Bool.not_eq_true', Bool.and_eq_false_iff, not_and] at h ⊢
        exact fun hlong hfree => h hlong (hfree.imp_right hcontained)
      · simp [not_or.mp hfence]

end FencedLines

namespace SpacedDestination

theorem find?_angle {space : Text} (hblank : ∀ c ∈ space, Unicode.isWhitespace c = true)
    (rest : Text) : find? (space ++ '<' :: rest) = none := by
  have hangle : Unicode.isWhitespace '<' = false := by decide
  unfold find?
  simp [List.dropWhile_append_of_pos hblank, hangle]

variable {depth : Nat} {marked : Marked}

/-- No step of the search is changed by the brackets, and none finds anything with them. -/
theorem Searched.settled (h : Searched depth marked) (fuel position : Nat) :
    onLine fuel depth position marked.text = [] := by
  induction fuel generalizing depth marked position with
  | zero => rfl
  | succ fuel ih =>
      -- One step of the search takes what one constructor adds.
      cases h with
      | nil => exact onLine_nil _ _ _
      | backslash => exact onLine_nil _ _ _
      | escape c hlater =>
          rw [text_append, text_plain, List.cons_append, List.singleton_append, onLine_escape]
          exact ih hlater _
      | code hfirst hspan hlater =>
          rw [text_append, text_plain,
            onLine_code hfirst (codeSpanLength_text hlater.calm hlater.unmarked hspan)]
          exact ih hlater _
      | opens hlater =>
          rw [text_append, text_plain, List.singleton_append, onLine_opens]
          exact ih hlater _
      | @unclosed _ rest hnested hunclosed hlater =>
          have hunclosed : closingParen? 0 (text rest) = none := by
            rw [closingParen?_text hlater.calm, hunclosed]
            rfl
          rw [text_append, text_plain, List.cons_append, List.cons_append, List.nil_append,
            onLine_unclosed hnested hunclosed]
          exact ih hlater _
      | @left _ inside rest hnested hpassed hleft hlater =>
          rw [text_append, text_plain, List.cons_append, List.cons_append, List.append_assoc,
            List.singleton_append, onLine_closed hnested hpassed hleft]
          exact ih hlater _
      | @wrapped _ space destination tail rest hnested hpassed hfound hlater =>
          rw [text_append, text_wrappedLink, List.cons_append, List.cons_append,
            List.append_assoc _ [')'], List.singleton_append,
            onLine_closed hnested (hfound.passed hpassed) (find?_angle hfound.blank _)]
          exact ih hlater _
      | other hordinary hclosing hlater =>
          rw [text_append, text_plain, List.singleton_append, onLine_other hordinary]
          · exact ih hlater _
          · rw [head?_text hlater.unmarked]
            exact hclosing

theorem Searched.opening? (h : Searched depth marked)
    (hunopened : FencedLines.opening? marked.kept = none) :
    FencedLines.opening? marked.text = none := by
  rcases h.front with hwhole | ⟨front, behind, rest, rfl⟩
  · rw [hwhole, text_plain]
    exact hunopened
  · simp only [kept_append, kept_plain, text_append, text_plain, List.append_assoc,
      List.cons_append] at hunopened ⊢
    refine FencedLines.opening?_behind hunopened fun hmem => ?_
    exact ((List.Sublist.refl behind).append (kept_sublist _)).subset hmem

theorem Searched.last (h : Searched depth marked) : ∀ mark ∈ marked.getLast?, mark.2 = false := by
  have hunmarked (front : Text) : ∀ mark ∈ (plain front).getLast?, mark.2 = false := by
    intro mark hmem
    obtain ⟨c, -, rfl⟩ := List.mem_map.mp (List.mem_of_mem_getLast? hmem)
    rfl
  have hbehind {front : Text} {rest : Marked} (h : ∀ mark ∈ rest.getLast?, mark.2 = false) :
      ∀ mark ∈ (plain front ++ rest).getLast?, mark.2 = false := by
    rcases List.eq_nil_or_concat rest with rfl | ⟨body, mark, rfl⟩
    · simpa using hunmarked front
    · simpa using h
  induction h with
  | nil => simp
  | backslash => exact hunmarked ['\\']
  | @wrapped depth space destination tail rest _ _ _ _ ih =>
      have hsplit : wrappedLink space destination tail
          = (plain (']' :: '(' :: space) ++ ('<', true) ::
            (plain destination ++ ('>', true) :: plain tail)) ++ plain [')'] := by
        simp [wrappedLink]
      rw [hsplit, List.append_assoc, List.getLast?_append_of_ne_nil _ (by simp [plain])]
      exact hbehind ih
  | _ =>
      rename_i ih
      exact hbehind ih

theorem Searched.line (h : Searched depth marked) (hline : '\n' ∉ marked.kept.dropLast) :
    '\n' ∉ marked.text.dropLast ∧ marked.text.getLast? = marked.kept.getLast? := by
  rcases List.eq_nil_or_concat marked with rfl | ⟨body, mark, rfl⟩
  · exact ⟨hline, rfl⟩
  rw [List.concat_eq_append] at h hline ⊢
  obtain ⟨c, inserted⟩ := mark
  obtain rfl : inserted = false := h.last (c, inserted) (by simp)
  rw [kept_append, kept_cons_false, kept_nil] at hline ⊢
  rw [text_append, text_cons, text_nil]
  simp only [List.dropLast_concat, List.getLast?_concat] at hline ⊢
  refine ⟨fun hmem => ?_, trivial⟩
  obtain ⟨⟨d, inserted⟩, hmem, rfl⟩ := List.mem_map.mp hmem
  cases inserted with
  | true => exact absurd (h.calm.angle '\n' (List.mem_append_left _ hmem)) (by decide)
  | false => exact hline (List.mem_map_of_mem (List.mem_filter.mpr ⟨hmem, rfl⟩))

variable {state : FencedLines.State} {lines : List Marked}

theorem SearchedLines.settled (h : SearchedLines state lines) (position : Nat) :
    onLines state position (lines.map text) = [] := by
  induction h generalizing position with
  | nil => rfl
  | fenced hinside hlater ih =>
      rw [List.map_cons, text_plain, onLines_cons, if_pos hinside, ih]
      rfl
  | @searched state line rest houtside hsearch hlater ih =>
      cases state with
      | some fence => cases houtside
      | none =>
          have hunopened : FencedLines.opening? line.kept = none := by
            simpa [FencedLines.step] using houtside
          have hsame : FencedLines.step none line.text = FencedLines.step none line.kept := by
            simp [FencedLines.step, hunopened, hsearch.opening? hunopened]
          rw [List.map_cons, onLines_cons, hsame, houtside, hsearch.settled, ih]
          rfl

theorem SearchedLines.lines_text (h : SearchedLines state lines)
    (htexts : Text.Lines (lines.map kept)) : Text.Lines (lines.map text) := by
  induction h with
  | nil => trivial
  | @fenced state line rest hinside hlater ih =>
      obtain ⟨hfilled, hinner, hlast, htexts⟩ := htexts
      rw [kept_plain] at hfilled hinner hlast
      rw [List.map_cons, text_plain]
      exact ⟨hfilled, hinner, hlast.imp_left fun hnone => by simpa using hnone, ih htexts⟩
  | @searched state line rest houtside hsearch hlater ih =>
      obtain ⟨hfilled, hinner, hlast, htexts⟩ := htexts
      obtain ⟨hinside, hsame⟩ := hsearch.line hinner
      refine ⟨fun hempty => hfilled ?_, hinside, ?_, ih htexts⟩
      · exact List.eq_nil_of_sublist_nil (hempty ▸ kept_sublist line)
      · rw [hsame]
        exact hlast.imp_left fun hnone => by simpa using hnone

/-- The search of a wrapped source finds nothing, so that no second one changes anything. -/
theorem wrap?_wrapped (source : Text) (wrapped : Wrapped) (h : wrap? source = some wrapped) :
    wrap? wrapped.text = none := by
  rw [wrap?_eq] at h
  split at h
  · cases h
  cases h
  obtain ⟨lines, hsearched, htexts, hwhole⟩ := exists_searchedSource source
  have hwritten : Text.lineSegments (markedSource source).text = lines.map text := by
    rw [← hwhole]
    have hflat : text lines.flatten = (lines.map text).flatten := List.map_flatten
    rw [hflat]
    exact Text.lineSegments_flatten (hsearched.lines_text (htexts ▸ Text.lines_lineSegments source))
  have hsettled : spans (markedSource source).text = [] := by
    rw [spans, hwritten]
    exact hsearched.settled 0
  rw [wrap?_eq, if_pos hsettled]

theorem wrap?_wrapped_fenced :
    ∃ wrapped, wrap? "~~~\n[a](b c)\n~~~\n[d](e f (g)) \x60[\x60 [h](i j)".toList = some wrapped ∧
      wrap? wrapped.text = none :=
  ⟨_, rfl, wrap?_wrapped "~~~\n[a](b c)\n~~~\n[d](e f (g)) \x60[\x60 [h](i j)".toList _ rfl⟩

end SpacedDestination

end Canonmark
