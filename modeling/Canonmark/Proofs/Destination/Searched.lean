import Canonmark.Proofs.Destination.Calm

/-!
# How a line is searched

A line with brackets around what was found on it is built up in the steps in which the line is
searched: each step takes an escape, a code span, a bracket, what stands in parentheses, or
another character. What holds of a searched line is proved by induction on these steps.
-/

namespace Canonmark.SpacedDestination

open Marked

def wrappedLink (space destination tail : Text) : Marked :=
  plain (']' :: '(' :: space) ++ ('<', true) ::
    (plain destination ++ ('>', true) :: plain (tail ++ [')']))

theorem wrappedLink_append (space destination tail : Text) (rest : Marked) :
    wrappedLink space destination tail ++ rest
      = plain (']' :: '(' :: space) ++ ('<', true) ::
        (plain destination ++ ('>', true) :: (plain (tail ++ [')']) ++ rest)) := by
  simp [wrappedLink]

@[simp] theorem kept_wrappedLink (space destination tail : Text) :
    kept (wrappedLink space destination tail)
      = ']' :: '(' :: (space ++ destination ++ tail ++ [')']) := by
  simp [wrappedLink]

@[simp] theorem text_wrappedLink (space destination tail : Text) :
    text (wrappedLink space destination tail)
      = ']' :: '(' :: (space ++ '<' :: (destination ++ '>' :: tail) ++ [')']) := by
  simp [wrappedLink]

/-- A line, or what is left of it behind `depth` open brackets, with its brackets marked. -/
inductive Searched : (depth : Nat) → Marked → Prop
  | nil (depth : Nat) : Searched depth []
  | backslash (depth : Nat) : Searched depth [('\\', false)]
  | escape {depth : Nat} {rest : Marked} (c : Char) (hlater : Searched depth rest) :
      Searched depth (plain ['\\', c] ++ rest)
  | code {depth : Nat} {front : Text} {rest : Marked} (hfirst : front.head? = some '\x60')
      (hspan : codeSpanLength (front ++ rest.kept) = front.length) (hlater : Searched depth rest) :
      Searched depth (plain front ++ rest)
  | opens {depth : Nat} {rest : Marked} (hlater : Searched (depth + 1) rest) :
      Searched depth (plain ['['] ++ rest)
  | unclosed {depth : Nat} {rest : Marked} (hnested : 0 < depth)
      (hnone : closingParen? 0 rest.kept = none) (hlater : Searched (depth - 1) rest) :
      Searched depth (plain [']', '('] ++ rest)
  | left {depth : Nat} {inside : Text} {rest : Marked} (hnested : 0 < depth)
      (hpassed : Passed 0 inside 0) (hnone : find? inside = none)
      (hlater : Searched (depth - 1) rest) :
      Searched depth (plain (']' :: '(' :: (inside ++ [')'])) ++ rest)
  | wrapped {depth : Nat} {space destination tail : Text} {rest : Marked} (hnested : 0 < depth)
      (hpassed : Passed 0 (space ++ destination ++ tail) 0)
      (hfound : Found space destination tail) (hlater : Searched (depth - 1) rest) :
      Searched depth (wrappedLink space destination tail ++ rest)
  | other {depth : Nat} {c : Char} {rest : Marked} (hordinary : c ≠ '\\' ∧ c ≠ '\x60' ∧ c ≠ '[')
      (hclosing : c = ']' → 0 < depth → rest.kept.head? ≠ some '(') (hlater : Searched depth rest) :
      Searched depth (plain [c] ++ rest)

section

variable {depth limit position : Nat} {spans : List Span}

theorem searched_code {more : Text}
    (hascending : Ascending limit (position + codeSpanLength ('\x60' :: more)) spans)
    (hlater : Searched depth (weave (position + codeSpanLength ('\x60' :: more))
      (('\x60' :: more).drop (codeSpanLength ('\x60' :: more))) spans)) :
    Searched depth (weave position ('\x60' :: more) spans) := by
  obtain ⟨before, hsplit, hlength⟩ := @codeSpanLength_last ('\x60' :: more) rfl
  have hsize : codeSpanLength ('\x60' :: more) = (before ++ ['\x60']).length := by
    simpa using hlength
  have hwhole : '\x60' :: more
      = (before ++ ['\x60']) ++ ('\x60' :: more).drop (codeSpanLength ('\x60' :: more)) := by
    simpa using hsplit
  have hfirst : (before ++ ['\x60']).head? = some '\x60' := by
    cases before with
    | nil => rfl
    | cons c rest => exact congrArg List.head? hsplit.symm
  generalize ('\x60' :: more).drop (codeSpanLength ('\x60' :: more)) = second at *
  rw [hsize] at hascending hlater
  rw [hwhole] at hsize ⊢
  rw [weave_skip hascending]
  exact .code hfirst (by rw [kept_weave hascending]; exact hsize) hlater

theorem searched_left {inside second : Text} (hnested : 0 < depth) (hpassed : Passed 0 inside 0)
    (hnone : find? inside = none)
    (hascending : Ascending limit (position + 2 + inside.length + 1) spans)
    (hlater : Searched (depth - 1) (weave (position + 2 + inside.length + 1) second spans)) :
    Searched depth (weave position (']' :: '(' :: (inside ++ ')' :: second)) spans) := by
  have hlength : position + (']' :: '(' :: (inside ++ [')'])).length
      = position + 2 + inside.length + 1 := by
    simp only [List.length_cons, List.length_append, List.length_nil]
    omega
  have hsplit : ']' :: '(' :: (inside ++ ')' :: second)
      = (']' :: '(' :: (inside ++ [')'])) ++ second := by simp
  rw [hsplit, weave_skip (hlength ▸ hascending), hlength]
  exact .left hnested hpassed hnone hlater

theorem searched_wrapped {space destination tail second : Text} (hnested : 0 < depth)
    (hpassed : Passed 0 (space ++ destination ++ tail) 0)
    (hfound : Found space destination tail)
    (hascending : Ascending limit
      (position + 2 + (space ++ destination ++ tail).length + 1) spans)
    (hlater : Searched (depth - 1)
      (weave (position + 2 + (space ++ destination ++ tail).length + 1) second spans)) :
    Searched depth
      (weave position (']' :: '(' :: (space ++ destination ++ tail ++ ')' :: second))
        ((Span.ofLength space.length destination.length).shift (position + 2) :: spans)) := by
  have hlength : position + ((']' :: '(' :: space).length + destination.length)
        + (tail ++ [')']).length
      = position + 2 + (space ++ destination ++ tail).length + 1 := by
    simp only [List.length_cons, List.length_append, List.length_nil]
    omega
  have hsplit : weave position (']' :: '(' :: (space ++ destination ++ tail ++ ')' :: second))
        ((Span.ofLength space.length destination.length).shift (position + 2) :: spans)
      = plain (']' :: '(' :: space) ++ ('<', true) :: (plain destination ++
        ('>', true) :: weave (position + ((']' :: '(' :: space).length
          + destination.length)) ((tail ++ [')']) ++ second) spans) := by
    have hstart : space.length + (position + 2) = position + (']' :: '(' :: space).length := by
      simp only [List.length_cons]
      omega
    rw [Span.shift_ofLength, hstart, ← weave_cons]
    simp only [List.cons_append, List.append_assoc, List.nil_append]
  rw [hsplit, weave_skip (hlength ▸ hascending), hlength, ← wrappedLink_append]
  exact .wrapped hnested hpassed hfound hlater

theorem searched_parentheses {inner : Text} {n : Nat} (hnested : 0 < depth)
    (hcloses : closingParen? 0 inner = some n)
    (hascending : Ascending limit (position + 2 + n + 1) spans)
    (hlater : Searched (depth - 1) (weave (position + 2 + n + 1) (inner.drop (n + 1)) spans)) :
    Searched depth (weave position (']' :: '(' :: inner)
      (((find? (inner.take n)).map (Span.shift (position + 2))).toList ++ spans)) := by
  have hsplit := closingParen?_split hcloses
  have hpassed := passed_of_closingParen? hcloses
  have hsize : (inner.take n).length = n :=
    List.length_take_of_le (Nat.le_of_lt (closingParen?_lt hcloses))
  generalize inner.drop (n + 1) = second at *
  generalize inner.take n = inside at *
  subst hsplit
  subst hsize
  cases hsearch : find? inside with
  | none => exact searched_left hnested hpassed hsearch hascending hlater
  | some span =>
      obtain ⟨space, destination, tail, rfl, rfl, hfound⟩ := find?_spec hsearch
      exact searched_wrapped hnested hpassed hfound hascending hlater

end

theorem searched_onLine (fuel depth position : Nat) (text : Text) (henough : text.length ≤ fuel) :
    Searched depth (weave position text (onLine fuel depth position text)) := by
  fun_induction onLine fuel depth position text with
  | case1 depth position text =>
      obtain rfl : text = [] := List.length_eq_zero_iff.mp (Nat.le_zero.mp henough)
      exact .nil depth
  | case2 => exact .nil _
  | case3 fuel depth position more ih =>
      cases more with
      | nil =>
          simp only [List.drop_nil, onLine_nil]
          exact .backslash depth
      | cons c second =>
          simp only [List.length_cons] at henough
          have hlater := ih (by simp only [List.drop_one, List.tail_cons]; omega)
          have hascending := onLine_ascending fuel depth (position + 2) second
          simp only [List.drop_one, List.tail_cons] at hlater ⊢
          rw [show '\\' :: c :: second = ['\\', c] ++ second from rfl,
            @weave_skip _ position ['\\', c] second _ hascending]
          exact .escape c hlater
  | case4 fuel depth position more _ n =>
      rename_i ih
      have hpositive : 0 < n := by
        obtain ⟨before, -, hlength⟩ := @codeSpanLength_last ('\x60' :: more) rfl
        simp only [n, hlength]
        exact Nat.succ_pos _
      simp only [List.length_cons] at henough
      exact searched_code (onLine_ascending fuel depth (position + n) _)
        (ih (by simp only [List.length_drop, List.length_cons]; omega))
  | case5 fuel depth position more _ _ ih =>
      have hascending := onLine_ascending fuel (depth + 1) (position + 1) more
      rw [show '[' :: more = ['['] ++ more from rfl, @weave_skip _ position ['['] more _ hascending]
      exact .opens (ih (by simpa using henough))
  | case6 fuel depth position c more _ _ _ hopened start inner hcloses =>
      rename_i ih
      simp only [Bool.and_eq_true, decide_eq_true_eq] at hopened
      obtain ⟨⟨rfl, hnested⟩, hparen⟩ := hopened
      obtain ⟨inner', rfl⟩ := List.head?_eq_some_iff.mp hparen
      simp only [List.length_cons] at henough
      have hlater := ih (by simp only [inner, List.drop_one, List.tail_cons]; omega)
      have hascending := onLine_ascending fuel (depth - 1) (position + 2) inner'
      simp only [inner, start, List.drop_one, List.tail_cons] at hlater hcloses ⊢
      rw [show ']' :: '(' :: inner' = [']', '('] ++ inner' from rfl,
        @weave_skip _ position [']', '('] inner' _ hascending]
      exact .unclosed hnested ((congrArg _ (kept_weave hascending)).trans hcloses) hlater
  | case7 fuel depth position c more _ _ _ hopened start inner n hcloses found =>
      rename_i ih
      simp only [Bool.and_eq_true, decide_eq_true_eq] at hopened
      obtain ⟨⟨rfl, hnested⟩, hparen⟩ := hopened
      obtain ⟨inner', rfl⟩ := List.head?_eq_some_iff.mp hparen
      simp only [List.length_cons] at henough
      have hlater := ih (by
        simp only [inner, List.drop_one, List.tail_cons, List.length_drop]
        omega)
      exact searched_parentheses hnested hcloses (onLine_ascending fuel (depth - 1) _ _) hlater
  | case8 fuel depth position c more hbackslash htick hopens hclosing ih =>
      have hascending := onLine_ascending fuel depth (position + 1) more
      rw [show c :: more = [c] ++ more from rfl, @weave_skip _ position [c] more _ hascending]
      refine .other ⟨hbackslash, htick, hopens⟩ ?_ (ih (by simpa using henough))
      rintro rfl hnested hparen
      have hparen : more.head? = some '(' :=
        (congrArg List.head? (kept_weave hascending)).symm.trans hparen
      simp [hnested, hparen] at hclosing

namespace Searched

variable {depth : Nat} {marked : Marked}

theorem unmarked (h : Searched depth marked) : marked.startsMarked = false := by
  cases h with
  | nil => rfl
  | backslash => rfl
  | code hfirst =>
      rename_i front rest _ _
      obtain ⟨more, rfl⟩ := List.head?_eq_some_iff.mp hfirst
      rfl
  | _ => rfl

theorem calm (h : Searched depth marked) : Calm marked := by
  induction h with
  | nil => trivial
  | backslash => exact ⟨fun hmarked => absurd hmarked Bool.false_ne_true, trivial⟩
  | wrapped hnested hpassed hfound hlater ih =>
      rw [wrappedLink_append]
      refine hfound.calm ?_ ih hlater.unmarked
      intro c hlast
      rw [List.getLast?_cons_cons] at hlast
      rename_i space _ _ _
      cases space with
      | nil => exact .inl (by simpa using hlast.symm)
      | cons d more =>
          rw [List.getLast?_cons_cons] at hlast
          exact .inr (hfound.blank c (List.mem_of_mem_getLast? hlast))
  | _ => exact calm_front _ ‹Calm _› (Searched.unmarked ‹_›)

theorem front (h : Searched depth marked) :
    marked = plain marked.kept ∨
      ∃ front behind rest, marked = plain (front ++ ']' :: behind) ++ ('<', true) :: rest := by
  induction h with
  | nil => exact .inl rfl
  | backslash => exact .inl rfl
  | @wrapped _ space => exact .inr ⟨[], '(' :: space, _, wrappedLink_append _ _ _ _⟩
  | _ =>
      rename_i ih
      rw [kept_append, kept_plain, plain_append]
      rcases ih with hwhole | ⟨front, behind, rest, rfl⟩
      · exact .inl (congrArg _ hwhole)
      · exact .inr ⟨_ ++ front, behind, rest, by
          rw [← List.append_assoc, ← plain_append, List.append_assoc]⟩

end Searched

inductive SearchedLines : (state : FencedLines.State) → List Marked → Prop
  | nil (state : FencedLines.State) : SearchedLines state []
  | fenced {state : FencedLines.State} {line : Text} {rest : List Marked}
      (hinside : (FencedLines.step state line).2 = true)
      (hlater : SearchedLines (FencedLines.step state line).1 rest) :
      SearchedLines state (plain line :: rest)
  | searched {state : FencedLines.State} {line : Marked} {rest : List Marked}
      (houtside : (FencedLines.step state line.kept).2 = false) (hsearch : Searched 0 line)
      (hlater : SearchedLines (FencedLines.step state line.kept).1 rest) :
      SearchedLines state (line :: rest)

theorem exists_searchedLines (state : FencedLines.State) (position : Nat) (lines : List Text) :
    ∃ marked, SearchedLines state marked ∧ marked.map kept = lines ∧
      marked.flatten = weave position lines.flatten (onLines state position lines) := by
  induction lines generalizing state position with
  | nil => exact ⟨[], .nil state, rfl, rfl⟩
  | cons line rest ih =>
      obtain ⟨marked, hsearched, htexts, hwhole⟩ :=
        ih (FencedLines.step state line).1 (position + line.length)
      have hothers := onLines_ascending (FencedLines.step state line).1
          (position + line.length) rest
      rw [onLines_cons, List.flatten_cons]
      cases hfenced : (FencedLines.step state line).2 with
      | true =>
          refine ⟨plain line :: marked, .fenced hfenced hsearched, by simp [htexts], ?_⟩
          rw [if_pos rfl, List.nil_append, weave_skip hothers, List.flatten_cons, hwhole]
      | false =>
          have hfound := onLine_ascending line.length 0 position line
          have hlineKept := @kept_weave _ position line _ hfound
          refine ⟨weave position line (onLine line.length 0 position line) :: marked,
            .searched (by rw [hlineKept]; exact hfenced)
              (searched_onLine _ _ _ _ (Nat.le_refl _)) (by rw [hlineKept]; exact hsearched),
            by rw [List.map_cons, hlineKept, htexts], ?_⟩
          rw [if_neg Bool.false_ne_true, weave_append hfound hothers, List.flatten_cons, hwhole]

theorem exists_searchedSource (source : Text) :
    ∃ marked, SearchedLines none marked ∧ marked.map kept = Text.lineSegments source ∧
      marked.flatten = markedSource source := by
  obtain ⟨marked, hsearched, htexts, hwhole⟩ :=
    exists_searchedLines none 0 (Text.lineSegments source)
  rw [Text.flatten_lineSegments] at hwhole
  exact ⟨marked, hsearched, htexts, hwhole⟩

end Canonmark.SpacedDestination
