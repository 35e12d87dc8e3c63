import Canonmark.Proofs.Destination.Wrapping
import Mathlib.Data.List.TakeWhile

/-!
# What the scanner finds and passes over

What is found in parentheses is taken apart into white space, a destination and a tail, and a
text in which brackets were woven into the parts that the scanner takes it in.
-/

namespace Canonmark.SpacedDestination

theorem weave_append {limit position : Nat} {first second : Text} {found others : List Span}
    (hfirst : Ascending (position + first.length) position found)
    (hsecond : Ascending limit (position + first.length) others) :
    weave position (first ++ second) (found ++ others) =
      weave position first found ++ weave (position + first.length) second others := by
  induction found generalizing position first with
  | nil =>
      cases others with
      | nil => simp [weave, Marked.plain]
      | cons span rest =>
          obtain ⟨hstart, hspan, -, -⟩ := hsecond
          have hopen : span.start - position =
              first.length + (span.start - (position + first.length)) := by omega
          have hclose : span.stop - position =
              first.length + (span.stop - (position + first.length)) := by omega
          have hwidth : first.length + (span.stop - (position + first.length)) -
              (first.length + (span.start - (position + first.length))) =
                span.stop - (position + first.length) - (span.start -
                (position + first.length)) := by
            omega
          simp [weave, Span.slice, hopen, hclose, hwidth, List.take_length_add_append,
            List.drop_length_add_append]
  | cons span rest ih =>
      obtain ⟨hstart, hspan, hstop, hrest⟩ := hfirst
      have hlength : span.stop + (first.drop (span.stop - position)).length =
          position + first.length := by
        rw [List.length_drop]
        omega
      have htail := @ih span.stop (first.drop (span.stop - position)) (hlength ▸ hrest)
        (hlength ▸ hsecond)
      have hslice : (span.back position).slice (first ++ second) =
          (span.back position).slice first := by
        simp only [Span.slice, Span.start_back, Span.stop_back]
        rw [List.drop_append_of_le_length (by omega),
          List.take_append_of_le_length (by rw [List.length_drop]; omega)]
      rw [List.cons_append, weave, weave, hslice, List.take_append_of_le_length (by omega),
        List.drop_append_of_le_length (by omega), htail, hlength]
      simp

theorem weave_skip {limit position : Nat} {first second : Text} {spans : List Span}
    (h : Ascending limit (position + first.length) spans) :
    weave position (first ++ second) spans =
      Marked.plain first ++ weave (position + first.length) second spans := by
  simpa [weave] using @weave_append limit position first second [] spans trivial h

theorem weave_cons {position : Nat} {before destination behind : Text} {spans : List Span} :
    weave position (before ++ (destination ++ behind))
        (.ofLength (position + before.length) destination.length :: spans) =
      Marked.plain before ++ ('<', true) :: (Marked.plain destination ++ ('>', true) ::
        weave (position + (before.length + destination.length)) behind spans) := by
  simp [weave, Span.slice, Nat.add_assoc, List.drop_length_add_append]

/-! ## One destination -/

theorem beforeTail_tail {text behind : Text} (h : text = beforeTail text ++ behind) :
    isTail behind = true := by
  induction text with
  | nil =>
      obtain rfl : behind = [] := by simpa [beforeTail] using h.symm
      rfl
  | cons c rest ih =>
      rw [beforeTail] at h
      split at h
      · next htail =>
          obtain rfl : c :: rest = behind := by simpa using h
          exact htail
      · exact ih (List.cons.inj h).2

theorem isTail_cons {c : Char} {rest : Text} (h : isTail (c :: rest) = true) :
    Unicode.isWhitespace c = true := by
  by_contra hsolid
  simp [isTail, hsolid] at h

theorem beforeTail_last (text : Text) :
    ∀ c ∈ (beforeTail text).getLast?, Unicode.isWhitespace c = false := by
  induction text with
  | nil => simp [beforeTail]
  | cons c rest ih =>
      rw [beforeTail]
      split
      · simp
      next htail =>
      cases hrest : beforeTail rest with
      | cons d more => simpa [hrest] using ih
      | nil =>
          have hisTail : isTail rest = true := by
            cases rest with
            | nil => rfl
            | cons d more =>
                rw [beforeTail] at hrest
                split at hrest
                · assumption
                · cases hrest
          suffices hc : Unicode.isWhitespace c = false by simpa
          by_contra hc
          refine htail ?_
          simp only [isTail, Bool.or_eq_true, Bool.and_eq_true, decide_eq_true_eq] at hisTail ⊢
          simp only [List.dropWhile_cons, Bool.not_eq_false] at hc ⊢
          rw [if_pos hc]
          refine hisTail.imp_right fun h => ⟨?_, h.2⟩
          exact h.1.trans (Nat.lt_succ_self _)

/-- What is found in parentheses: a destination behind white space and before a tail. -/
structure Found (space destination tail : Text) : Prop where
  blank : ∀ c ∈ space, Unicode.isWhitespace c = true
  first : ∃ c more, destination = c :: more ∧ Unicode.isWhitespace c = false
  spaced : ∃ c ∈ destination, Unicode.isWhitespace c = true
  unbracketed : '<' ∉ destination ∧ '>' ∉ destination
  last : ∀ c ∈ destination.getLast?, c ≠ '\\' ∧ Unicode.isWhitespace c = false
  tail : isTail tail = true

theorem find?_spec {inner : Text} {span : Span} (h : find? inner = some span) :
    ∃ space destination tail, inner = space ++ destination ++ tail ∧
      span = .ofLength space.length destination.length ∧
      Found space destination tail := by
  unfold find? at h
  have hsplit := List.takeWhile_append_dropWhile (p := Unicode.isWhitespace) (l := inner)
  generalize hcontent : inner.dropWhile Unicode.isWhitespace = content at h hsplit
  obtain ⟨tail, htail⟩ := beforeTail_isPrefix content
  simp only at h
  split at h
  · cases h
  next hkeep =>
  simp only [Bool.or_eq_true, not_or, Bool.not_eq_true', Bool.not_eq_false,
    decide_eq_true_eq, List.contains_iff_mem] at hkeep
  obtain ⟨⟨⟨⟨-, hspace⟩, hopen⟩, hclose⟩, hlast⟩ := hkeep
  cases h
  refine ⟨inner.takeWhile Unicode.isWhitespace, beforeTail content, tail,
    by rw [List.append_assoc, htail]; exact hsplit.symm, ?_, ?_⟩
  · have hlength := congrArg List.length hsplit
    rw [List.length_append] at hlength
    congr 1
    omega
  constructor
  case blank => exact fun c hc => by simpa using List.mem_takeWhile_imp hc
  case first =>
    have hhead := List.head?_dropWhile_not Unicode.isWhitespace inner
    rw [hcontent] at hhead
    cases hdestination : beforeTail content with
    | nil => simp [hdestination] at hspace
    | cons c more =>
        rw [← htail, hdestination] at hhead
        exact ⟨c, more, rfl, by simpa using hhead⟩
  case spaced => simpa using hspace
  case unbracketed => exact ⟨by simpa using hopen, by simpa using hclose⟩
  case last =>
    intro c hc
    exact ⟨fun hback => hlast (hback ▸ hc), beforeTail_last content c hc⟩
  case tail => exact beforeTail_tail htail.symm

theorem closingParen?_split {depth n : Nat} {text : Text}
    (h : closingParen? depth text = some n) : text = text.take n ++ ')' :: text.drop (n + 1) := by
  fun_induction closingParen? depth text generalizing n with
  | case1 => cases h
  | case2 => cases h
  | case3 depth d rest ih =>
      obtain ⟨m, hm, rfl⟩ := Option.map_eq_some_iff.mp h
      simpa using ih hm
  | case4 depth rest _ _ ih =>
      obtain ⟨m, hm, rfl⟩ := Option.map_eq_some_iff.mp h
      simpa using ih hm
  | case5 =>
      cases h
      rfl
  | case6 depth rest hdepth _ _ _ ih =>
      obtain ⟨m, hm, rfl⟩ := Option.map_eq_some_iff.mp h
      simpa using ih hm
  | case7 => cases h
  | case8 depth c rest _ _ _ _ _ ih =>
      obtain ⟨m, hm, rfl⟩ := Option.map_eq_some_iff.mp h
      simpa using ih hm

/--
The search for a closing parenthesis passes a text: `depth` parentheses are open in front of it,
and `deeper` behind it.
-/
inductive Passed : (depth : Nat) → Text → (deeper : Nat) → Prop
  | nil (depth : Nat) : Passed depth [] depth
  | escape {depth deeper : Nat} {rest : Text} (c : Char) (hlater : Passed depth rest deeper) :
      Passed depth ('\\' :: c :: rest) deeper
  | opens {depth deeper : Nat} {rest : Text} (hlater : Passed (depth + 1) rest deeper) :
      Passed depth ('(' :: rest) deeper
  | closes {depth deeper : Nat} {rest : Text} (hlater : Passed depth rest deeper) :
      Passed (depth + 1) (')' :: rest) deeper
  | plain {depth deeper : Nat} {c : Char} {rest : Text}
      (hother : c ≠ '\\' ∧ c ≠ '(' ∧ c ≠ ')' ∧ c ≠ '\n') (hlater : Passed depth rest deeper) :
      Passed depth (c :: rest) deeper

theorem passed_of_closingParen? {depth n : Nat} {text : Text}
    (h : closingParen? depth text = some n) : Passed depth (text.take n) 0 := by
  fun_induction closingParen? depth text generalizing n with
  | case1 => cases h
  | case2 => cases h
  | case3 depth d rest ih =>
      obtain ⟨m, hm, rfl⟩ := Option.map_eq_some_iff.mp h
      exact .escape d (ih hm)
  | case4 depth rest _ _ ih =>
      obtain ⟨m, hm, rfl⟩ := Option.map_eq_some_iff.mp h
      exact .opens (ih hm)
  | case5 =>
      cases h
      exact .nil 0
  | case6 depth rest hopen _ _ _ ih =>
      obtain ⟨m, hm, rfl⟩ := Option.map_eq_some_iff.mp h
      obtain ⟨depth, rfl⟩ := Nat.exists_eq_succ_of_ne_zero hopen
      exact .closes (ih hm)
  | case7 => cases h
  | case8 depth c rest hsingle hescaped hopens hcloses hnewline ih =>
      obtain ⟨m, hm, rfl⟩ := Option.map_eq_some_iff.mp h
      have hbackslash : c ≠ '\\' := by
        rintro rfl
        cases rest with
        | nil => exact hsingle rfl rfl
        | cons d rest => exact hescaped d rest rfl rfl
      exact .plain ⟨hbackslash, hopens, hcloses, hnewline⟩ (ih hm)

namespace Passed

variable {depth deeper : Nat} {text : Text}

theorem closingParen? (h : Passed depth text deeper) (behind : Text) :
    closingParen? depth (text ++ behind)
      = (SpacedDestination.closingParen? deeper behind).map (· + text.length) := by
  induction h with
  | nil depth => simp
  | escape c hlater ih =>
      rw [List.cons_append, List.cons_append, closingParen?_escaped, ih, Option.map_map]
      rfl
  | opens hlater ih =>
      rw [List.cons_append, closingParen?_cons (by decide) (by decide), if_pos rfl, ih,
        Option.map_map]
      rfl
  | closes hlater ih =>
      rw [List.cons_append, closingParen?_cons (by decide) (by decide), if_neg (by decide),
        if_pos rfl, if_neg (Nat.succ_ne_zero _), Nat.add_sub_cancel, ih, Option.map_map]
      rfl
  | plain hother hlater ih =>
      rw [List.cons_append, closingParen?_cons hother.1 hother.2.2.2, if_neg hother.2.1,
        if_neg hother.2.2.1, ih, Option.map_map]
      rfl

theorem closes_behind (h : Passed depth text 0) (behind : Text) :
    SpacedDestination.closingParen? depth (text ++ ')' :: behind) = some text.length := by
  rw [h.closingParen?, closingParen?_cons (by decide) (by decide), if_neg (by decide), if_pos rfl,
    if_pos rfl, Option.map_some, Nat.zero_add]

theorem append {second : Text} {last : Nat} (h : Passed depth text deeper)
    (hlater : Passed deeper second last) : Passed depth (text ++ second) last := by
  induction h with
  | nil depth => exact hlater
  | escape c _ ih => exact .escape c (ih hlater)
  | opens _ ih => exact .opens (ih hlater)
  | closes _ ih => exact .closes (ih hlater)
  | plain hother _ ih => exact .plain hother (ih hlater)

theorem last_tail {p : Char → Prop} {c : Char} {rest : Text}
    (h : ∀ d ∈ (c :: rest).getLast?, p d) : ∀ d ∈ rest.getLast?, p d := by
  intro d hmem
  refine h d ?_
  rw [List.getLast?_cons, Option.mem_def.mp hmem]
  rfl

theorem split {first second : Text} (h : Passed depth (first ++ second) deeper)
    (hlast : ∀ c ∈ first.getLast?, c ≠ '\\') :
    ∃ middle, Passed depth first middle ∧ Passed middle second deeper := by
  induction hsize : first.length using Nat.strong_induction_on generalizing first depth with
  | _ n ih =>
  subst hsize
  cases first with
  | nil => exact ⟨depth, .nil depth, h⟩
  | cons c more =>
      have honward {depth : Nat} (hlater : Passed depth (more ++ second) deeper) :
          ∃ middle, Passed depth more middle ∧ Passed middle second deeper :=
        ih more.length (Nat.lt_succ_self _) hlater (last_tail hlast) rfl
      rw [List.cons_append] at h
      generalize hwhole : more ++ second = rest at h
      cases h with
      | escape d hlater =>
          cases more with
          | nil => exact absurd rfl (hlast '\\' rfl)
          | cons e more =>
              obtain ⟨rfl, rfl⟩ := List.cons.inj hwhole
              obtain ⟨middle, hbefore, hbehind⟩ := ih more.length
                (Nat.lt_add_of_pos_right Nat.zero_lt_two) hlater (last_tail (last_tail hlast)) rfl
              exact ⟨middle, .escape e hbefore, hbehind⟩
      | opens hlater =>
          obtain ⟨middle, hbefore, hbehind⟩ := honward (hwhole ▸ hlater)
          exact ⟨middle, .opens hbefore, hbehind⟩
      | closes hlater =>
          obtain ⟨middle, hbefore, hbehind⟩ := honward (hwhole ▸ hlater)
          exact ⟨middle, .closes hbefore, hbehind⟩
      | plain hother hlater =>
          obtain ⟨middle, hbefore, hbehind⟩ := honward (hwhole ▸ hlater)
          exact ⟨middle, .plain hother hbefore, hbehind⟩

end Passed

theorem not_paren_of_isWhitespace {c : Char} (h : Unicode.isWhitespace c = true) :
    c ≠ '\\' ∧ c ≠ '(' ∧ c ≠ ')' := by
  refine ⟨?_, ?_, ?_⟩
  all_goals
    rintro rfl
    exact absurd h (by decide)

namespace Found

variable {space destination tail : Text} (hfound : Found space destination tail)
include hfound

theorem passed_parts (h : Passed 0 (space ++ destination ++ tail) 0) :
    ∃ first second, Passed 0 space first ∧ Passed first destination second ∧
      Passed second tail 0 := by
  rw [List.append_assoc] at h
  obtain ⟨first, hfront, h⟩ := h.split fun c hmem =>
    (not_paren_of_isWhitespace (hfound.blank c (List.mem_of_mem_getLast? hmem))).1
  obtain ⟨second, hmiddle, hback⟩ := h.split fun c hmem => (hfound.last c hmem).1
  exact ⟨first, second, hfront, hmiddle, hback⟩

theorem passed (h : Passed 0 (space ++ destination ++ tail) 0) :
    Passed 0 (space ++ '<' :: (destination ++ '>' :: tail)) 0 := by
  obtain ⟨_, _, hfirst, hsecond, hthird⟩ := hfound.passed_parts h
  exact hfirst.append (.plain (by decide) (hsecond.append (.plain (by decide) hthird)))

end Found

/-! ## Code spans -/

theorem closing?_pos {size n : Nat} {text : Text}
    (h : codeSpanLength.closing? size 0 text = some n) : 0 < n := by
  cases text with
  | nil => simp [codeSpanLength.closing?] at h
  | cons c rest =>
      rw [codeSpanLength.closing?] at h
      split_ifs at h with htick hsize
      · obtain ⟨m, -, rfl⟩ := Option.map_eq_some_iff.mp h
        exact Nat.succ_pos m
      · simp at hsize
      · obtain ⟨m, -, rfl⟩ := Option.map_eq_some_iff.mp h
        exact Nat.succ_pos m

theorem closing?_last {size seen n : Nat} {text : Text}
    (h : codeSpanLength.closing? size seen text = some n) (hn : 0 < n) :
    ∃ before, text = before ++ '\x60' :: text.drop n ∧ n = before.length + 1 := by
  fun_induction codeSpanLength.closing? size seen text generalizing n with
  | case1 => cases h; exact absurd hn (Nat.lt_irrefl 0)
  | case2 => cases h
  | case3 seen rest ih =>
      obtain ⟨m, hm, rfl⟩ := Option.map_eq_some_iff.mp h
      cases m with
      | zero => exact ⟨[], by simp, rfl⟩
      | succ m =>
          obtain ⟨before, hrest, hlength⟩ := ih hm (Nat.succ_pos m)
          exact ⟨'\x60' :: before, by simpa using hrest, by simpa using hlength⟩
  | case4 => cases h; exact absurd hn (Nat.lt_irrefl 0)
  | case5 seen c rest _ _ ih =>
      obtain ⟨m, hm, rfl⟩ := Option.map_eq_some_iff.mp h
      obtain ⟨before, hrest, hlength⟩ := ih hm (closing?_pos hm)
      exact ⟨c :: before, by simpa using hrest, by simpa using hlength⟩

theorem codeSpanLength_last {text : Text} (h : text.head? = some '\x60') :
    ∃ before, text = before ++ '\x60' :: text.drop (codeSpanLength text) ∧
      codeSpanLength text = before.length + 1 := by
  obtain ⟨rest, rfl⟩ : ∃ rest, text = '\x60' :: rest := by
    cases text with
    | nil => cases h
    | cons c rest => exact ⟨rest, by simpa using h⟩
  have hsplit := @List.takeWhile_append_dropWhile _ (· = '\x60') ('\x60' :: rest)
  have hdrop := Text.drop_length_takeWhile (· = '\x60') ('\x60' :: rest)
  have hticks : ∀ c ∈ ('\x60' :: rest).takeWhile (· = '\x60'), c = '\x60' := fun c hc => by
    simpa using List.mem_takeWhile_imp hc
  have hne : ('\x60' :: rest).takeWhile (· = '\x60') ≠ [] := by simp
  unfold codeSpanLength
  generalize ('\x60' :: rest).takeWhile (· = '\x60') = ticks at hsplit hdrop hticks hne
  generalize ('\x60' :: rest).dropWhile (· = '\x60') = behind at hsplit hdrop
  simp only [hdrop]
  rw [← hsplit]
  cases hclose : codeSpanLength.closing? ticks.length 0 behind with
  | none =>
      have hlast := hticks _ (List.getLast_mem hne)
      refine ⟨ticks.dropLast, ?_, ?_⟩
      · conv_lhs => rw [← List.dropLast_append_getLast hne, hlast]
        simp
      · have := List.length_pos_of_ne_nil hne
        simp only [Option.getD_none, List.length_dropLast]
        omega
  | some n =>
      obtain ⟨before, hbefore, hlength⟩ := closing?_last hclose (closing?_pos hclose)
      refine ⟨ticks ++ before, ?_, ?_⟩
      · conv_lhs => rw [hbefore]
        simp
      · simp only [Option.getD_some, List.length_append]
        omega

theorem codeSpanLength_ends {front rest : Text} (hfirst : front.head? = some '\x60')
    (hspan : codeSpanLength (front ++ rest) = front.length) :
    ∃ before, front = before ++ ['\x60'] := by
  have hhead : (front ++ rest).head? = some '\x60' := by
    rw [List.head?_append, hfirst]
    rfl
  obtain ⟨before, hsplit, -⟩ := codeSpanLength_last hhead
  rw [hspan, List.drop_left, ← List.singleton_append, ← List.append_assoc] at hsplit
  exact ⟨before, List.append_cancel_right hsplit⟩

/-! ## Steps of the search -/

@[simp] theorem onLine_nil (fuel depth position : Nat) : onLine fuel depth position [] = [] := by
  cases fuel <;> rfl

theorem onLine_escape (fuel depth position : Nat) (c : Char) (rest : Text) :
    onLine (fuel + 1) depth position ('\\' :: c :: rest) = onLine fuel depth (position + 2) rest :=
  rfl

theorem onLine_code {front rest : Text} (hfirst : front.head? = some '\x60')
    (hspan : codeSpanLength (front ++ rest) = front.length) (fuel depth position : Nat) :
    onLine (fuel + 1) depth position (front ++ rest)
      = onLine fuel depth (position + front.length) rest := by
  obtain ⟨more, rfl⟩ := List.head?_eq_some_iff.mp hfirst
  rw [List.cons_append] at hspan ⊢
  rw [onLine, if_neg (by decide), if_pos rfl, hspan]
  simp

theorem onLine_opens (fuel depth position : Nat) (rest : Text) :
    onLine (fuel + 1) depth position ('[' :: rest)
      = onLine fuel (depth + 1) (position + 1) rest := rfl

theorem onLine_unclosed {depth : Nat} {inner : Text} (hnested : 0 < depth)
    (hnone : closingParen? 0 inner = none) (fuel position : Nat) :
    onLine (fuel + 1) depth position (']' :: '(' :: inner)
      = onLine fuel (depth - 1) (position + 2) inner := by
  rw [onLine]
  simp [hnested, hnone]

theorem onLine_closed {depth : Nat} {inside : Text} (hnested : 0 < depth)
    (hpassed : Passed 0 inside 0) (hleft : find? inside = none) (fuel position : Nat)
    (behind : Text) :
    onLine (fuel + 1) depth position (']' :: '(' :: (inside ++ ')' :: behind))
      = onLine fuel (depth - 1) (position + 2 + inside.length + 1) behind := by
  rw [onLine]
  simp [hnested, hpassed.closes_behind, hleft]

theorem onLine_other {depth : Nat} {c : Char} {rest : Text}
    (hordinary : c ≠ '\\' ∧ c ≠ '\x60' ∧ c ≠ '[')
    (hclosing : c = ']' → 0 < depth → rest.head? ≠ some '(') (fuel position : Nat) :
    onLine (fuel + 1) depth position (c :: rest) = onLine fuel depth (position + 1) rest := by
  rw [onLine, if_neg hordinary.1, if_neg hordinary.2.1, if_neg hordinary.2.2, if_neg]
  simp only [Bool.and_eq_true, decide_eq_true_eq, not_and]
  rintro ⟨hclose, hnested⟩
  exact hclosing hclose hnested

end Canonmark.SpacedDestination
