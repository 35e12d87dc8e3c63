import Canonmark.Proofs.Destination.Searched
import Canonmark.Proofs.Text.Escaping

/-!
# Wrapped destinations are links

Around a destination that is wrapped stands a link as Markdown writes one: behind `](` and white
space the destination in angle brackets, and behind these, up to the parenthesis that closes the
link, white space with or without a title in it.
-/

namespace Canonmark.SpacedDestination

open Marked

def titleDelimiters : List (Char × Char) := [('"', '"'), ('\'', '\''), ('(', ')')]

def WrittenTitle (title : Text) : Prop :=
  ∃ opening closing inner, (opening, closing) ∈ titleDelimiters ∧
    title = opening :: (inner ++ [closing]) ∧
    Escape.firstUnescaped? (fun c => c = opening || c = closing) (inner ++ [closing])
      = some inner.length

/-- White space, or a title with white space in front of it and perhaps behind it. -/
def TitledTail (tail : Text) : Prop :=
  (∀ c ∈ tail, Unicode.isWhitespace c = true) ∨
    ∃ gap title rest, tail = gap ++ (title ++ rest) ∧ gap ≠ [] ∧
      (∀ c ∈ gap ++ rest, Unicode.isWhitespace c = true) ∧ WrittenTitle title

/-- Every character with `p` has a backslash in front that belongs to it. -/
inductive Shielded (p : Char → Bool) : Text → Prop
  | nil : Shielded p []
  | escape {rest : Text} (c : Char) (hlater : Shielded p rest) : Shielded p ('\\' :: c :: rest)
  | plain {c : Char} {rest : Text} (hbackslash : c ≠ '\\') (hother : p c = false)
      (hlater : Shielded p rest) : Shielded p (c :: rest)

theorem Shielded.firstUnescaped? {p : Char → Bool} {inner : Text} {close : Char}
    (h : Shielded p inner) (hpunctuation : ∀ c, p c = true → Ascii.isPunctuation c = true)
    (hbackslash : p '\\' = false) (hcloses : p close = true) (behind : Text) :
    Escape.firstUnescaped? p (inner ++ close :: behind) = some inner.length := by
  induction h with
  | nil =>
      refine Escape.firstUnescaped?_found ?_ hcloses behind
      rintro rfl
      exact absurd hcloses (by simp [hbackslash])
  | @escape rest c hlater ih =>
      cases hescaped : Ascii.isPunctuation c with
      | true =>
          rw [List.cons_append, List.cons_append, Escape.firstUnescaped?_escaped hescaped, ih]
          rfl
      | false =>
          have hsingle : c ≠ '\\' := by
            rintro rfl
            exact absurd hescaped (by decide)
          have hother : p c = false :=
            Bool.eq_false_iff.mpr fun h => absurd (hpunctuation c h) (by simp [hescaped])
          rw [List.cons_append, List.cons_append,
            Escape.firstUnescaped?_backslash hescaped hbackslash,
            Escape.firstUnescaped?_cons hsingle hother, ih]
          rfl
  | plain hsingle hother hlater ih =>
      rw [List.cons_append, Escape.firstUnescaped?_cons hsingle hother, ih]
      rfl

theorem behindTitle?_split {close : Char} {text behind : Text}
    (h : behindTitle? close text = some behind) :
    ∃ inner, text = inner ++ close :: behind ∧ Shielded (· = close) inner := by
  fun_induction behindTitle? close text with
  | case1 => cases h
  | case2 => cases h
  | case3 => cases h
  | case4 d rest _ ih =>
      obtain ⟨inner, rfl, hshielded⟩ := ih h
      exact ⟨'\\' :: d :: inner, rfl, .escape d hshielded⟩
  | case5 rest _ _ =>
      cases h
      exact ⟨[], rfl, .nil⟩
  | case6 c rest hsingle hescaped hother ih =>
      obtain ⟨inner, rfl, hshielded⟩ := ih h
      have hbackslash : c ≠ '\\' := by
        rintro rfl
        cases hrest : inner ++ close :: behind with
        | nil => simp at hrest
        | cons d rest => exact hescaped d rest rfl hrest
      exact ⟨c :: inner, rfl, .plain hbackslash (decide_eq_false hother) hshielded⟩

theorem Passed.blank {depth deeper : Nat} {text : Text} (h : Passed depth text deeper)
    (hblank : ∀ c ∈ text, Unicode.isWhitespace c = true) : deeper = depth := by
  induction h with
  | nil depth => rfl
  | escape c hlater ih =>
      exact absurd rfl (not_paren_of_isWhitespace (hblank '\\' List.mem_cons_self)).1
  | opens hlater ih =>
      exact absurd rfl (not_paren_of_isWhitespace (hblank '(' List.mem_cons_self)).2.1
  | closes hlater ih =>
      exact absurd rfl (not_paren_of_isWhitespace (hblank ')' List.mem_cons_self)).2.2
  | plain hother hlater ih => exact ih fun c hmem => hblank c (List.mem_cons_of_mem _ hmem)

theorem Shielded.parentheses {inner behind : Text} {depth : Nat} (h : Shielded (· = ')') inner)
    (hpassed : Passed (depth + 1) (inner ++ ')' :: behind) 0)
    (hblank : ∀ c ∈ behind, Unicode.isWhitespace c = true) :
    depth = 0 ∧ Shielded (fun c => c = '(' || c = ')') inner := by
  induction h generalizing depth with
  | nil =>
      cases hpassed with
      | closes hlater => exact ⟨(hlater.blank hblank).symm, .nil⟩
      | plain hother hlater => exact absurd rfl hother.2.2.1
  | escape c hlater ih =>
      cases hpassed with
      | escape _ hpassed =>
          obtain ⟨hclosed, hshielded⟩ := ih hpassed
          exact ⟨hclosed, .escape c hshielded⟩
      | plain hother _ => exact absurd rfl hother.1
  | @plain c rest hbackslash hother hlater ih =>
      rw [List.cons_append] at hpassed
      generalize hwhole : rest ++ ')' :: behind = more at hpassed
      cases hpassed with
      | escape => exact absurd rfl hbackslash
      | opens hpassed =>
          -- The title stops at the first closing parenthesis, so this one would be left open.
          exact absurd (ih (hwhole ▸ hpassed)).1 (Nat.succ_ne_zero depth)
      | closes => simp at hother
      | plain hordinary hpassed =>
          obtain ⟨hclosed, hshielded⟩ := ih (hwhole ▸ hpassed)
          exact ⟨hclosed, .plain hbackslash (by simp [hordinary.2.1, hordinary.2.2.1]) hshielded⟩

theorem Shielded.writtenTitle {opening closing : Char} {inner : Text}
    (hdelimiters : (opening, closing) ∈ titleDelimiters)
    (h : Shielded (fun c => c = opening || c = closing) inner) :
    WrittenTitle (opening :: (inner ++ [closing])) := by
  refine ⟨opening, closing, inner, hdelimiters, rfl, h.firstUnescaped? ?_ ?_ (by simp) []⟩
  · intro c hfound
    simp only [titleDelimiters, List.mem_cons, Prod.mk.injEq, List.not_mem_nil, or_false]
      at hdelimiters
    rcases hdelimiters with ⟨rfl, rfl⟩ | ⟨rfl, rfl⟩ | ⟨rfl, rfl⟩
    all_goals
      simp only [Bool.or_eq_true, decide_eq_true_eq] at hfound
      rcases hfound with rfl | rfl
      all_goals decide
  · simp only [titleDelimiters, List.mem_cons, Prod.mk.injEq, List.not_mem_nil, or_false]
      at hdelimiters
    rcases hdelimiters with ⟨rfl, rfl⟩ | ⟨rfl, rfl⟩ | ⟨rfl, rfl⟩
    all_goals decide

theorem isTitle_split {content : Text} {depth : Nat} (h : isTitle content = true)
    (hpassed : Passed depth content 0) :
    ∃ title rest, content = title ++ rest ∧ (∀ c ∈ rest, Unicode.isWhitespace c = true) ∧
      WrittenTitle title := by
  have hquoted {quote : Char} {text : Text} (hdelimiters : (quote, quote) ∈ titleDelimiters)
      (h : (behindTitle? quote text).any Unicode.isBlank = true) :
      ∃ title rest, quote :: text = title ++ rest ∧
        (∀ c ∈ rest, Unicode.isWhitespace c = true) ∧ WrittenTitle title := by
    obtain ⟨rest, hfound, hblank⟩ := (Option.any_eq_true _ _).mp h
    obtain ⟨inner, rfl, hshielded⟩ := behindTitle?_split hfound
    refine ⟨quote :: (inner ++ [quote]), rest, by simp, by simpa [Unicode.isBlank] using hblank, ?_⟩
    exact Shielded.writtenTitle hdelimiters (by simpa using hshielded)
  unfold isTitle at h
  split at h
  · exact hquoted (by decide) h
  · exact hquoted (by decide) h
  · obtain ⟨rest, hfound, hblank⟩ := (Option.any_eq_true _ _).mp h
    obtain ⟨inner, rfl, hshielded⟩ := behindTitle?_split hfound
    have hblank : ∀ c ∈ rest, Unicode.isWhitespace c = true := by
      simpa [Unicode.isBlank] using hblank
    refine ⟨'(' :: (inner ++ [')']), rest, by simp, hblank, ?_⟩
    refine Shielded.writtenTitle (by decide) ?_
    cases hpassed with
    | opens hpassed => exact (hshielded.parentheses hpassed hblank).2
    | plain hother _ => exact absurd rfl hother.2.1
  · cases h

theorem titledTail {tail : Text} {depth : Nat} (h : isTail tail = true)
    (hpassed : Passed depth tail 0) : TitledTail tail := by
  have hsplit := List.takeWhile_append_dropWhile (p := Unicode.isWhitespace) (l := tail)
  have hblank : ∀ c ∈ tail.takeWhile Unicode.isWhitespace, Unicode.isWhitespace c = true :=
    fun c hmem => List.mem_takeWhile_imp hmem
  unfold isTail at h
  generalize tail.takeWhile Unicode.isWhitespace = gap at hsplit hblank
  generalize tail.dropWhile Unicode.isWhitespace = content at h hsplit
  subst hsplit
  simp only [Bool.or_eq_true, Bool.and_eq_true, decide_eq_true_eq, List.isEmpty_iff] at h
  rcases h with rfl | ⟨hshorter, htitled⟩
  · left
    simpa using hblank
  · right
    have hlast : ∀ c ∈ gap.getLast?, c ≠ '\\' := fun c hmem =>
      (not_paren_of_isWhitespace (hblank c (List.mem_of_mem_getLast? hmem))).1
    obtain ⟨_, -, hpassed⟩ := hpassed.split hlast
    obtain ⟨title, rest, rfl, hbehind, hwritten⟩ := isTitle_split htitled hpassed
    refine ⟨gap, title, rest, rfl, ?_, List.forall_mem_append.mpr ⟨hblank, hbehind⟩, hwritten⟩
    rintro rfl
    exact absurd hshorter (Nat.lt_irrefl _)

/-- What stands between the parentheses of a link around a destination in angle brackets. -/
structure PointyTail (space destination tail : Text) : Prop where
  blank : ∀ c ∈ space, Unicode.isWhitespace c = true
  spaced : ∃ c ∈ destination, Unicode.isWhitespace c = true
  line : '\n' ∉ space ++ destination ++ tail
  unbracketed : '<' ∉ destination ∧ '>' ∉ destination
  last : destination.getLast? ≠ some '\\'
  titled : TitledTail tail
  closes : ∀ behind,
    closingParen? 0 (space ++ '<' :: (destination ++ '>' :: (tail ++ ')' :: behind)))
      = some (space.length + destination.length + tail.length + 2)

theorem Found.pointyTail {space destination tail : Text} (hfound : Found space destination tail)
    (hpassed : Passed 0 (space ++ destination ++ tail) 0)
    (hline : '\n' ∉ space ++ destination ++ tail) : PointyTail space destination tail := by
  constructor
  case blank => exact hfound.blank
  case spaced => exact hfound.spaced
  case line => exact hline
  case unbracketed => exact hfound.unbracketed
  case last => exact fun h => (hfound.last '\\' h).1 rfl
  case titled =>
    obtain ⟨_, _, -, -, hpassed⟩ := hfound.passed_parts hpassed
    exact titledTail hfound.tail hpassed
  case closes =>
    intro behind
    have hcloses := (hfound.passed hpassed).closes_behind behind
    simp only [List.append_assoc, List.cons_append] at hcloses
    rw [hcloses]
    simp only [List.length_append, List.length_cons, Option.some.injEq]
    omega

inductive Bracketed : Marked → Prop
  | nil : Bracketed []
  | text {rest : Marked} (front : Text) (hlater : Bracketed rest) : Bracketed (plain front ++ rest)
  | link {space destination tail : Text} {rest : Marked}
      (hpointy : PointyTail space destination tail) (hlater : Bracketed rest) :
      Bracketed (wrappedLink space destination tail ++ rest)

namespace Bracketed

variable {first second marked : Marked}

theorem append (h : Bracketed first) (hlater : Bracketed second) : Bracketed (first ++ second) := by
  induction h with
  | nil => exact hlater
  | text front _ ih => simpa using .text front ih
  | link hpointy _ ih => simpa using .link hpointy ih

theorem exists_link (h : Bracketed marked) (start : Nat) {k : Nat}
    (hbound : 2 * k + 1 < (positions start marked).length) :
    ∃ first space destination tail second, PointyTail space destination tail ∧
      marked = first ++ (wrappedLink space destination tail ++ second) ∧
      (positions start marked)[2 * k]? = some (start + first.length + 2 + space.length) ∧
      (positions start marked)[2 * k + 1]?
        = some (start + first.length + 3 + space.length + destination.length) := by
  induction h generalizing start k with
  | nil => simp [positions] at hbound
  | text front hlater ih =>
      rw [positions_append, positions_plain, List.nil_append] at hbound ⊢
      obtain ⟨first, space, destination, tail, second, hpointy, rfl, hopening, hclosing⟩ :=
        ih _ hbound
      refine ⟨plain front ++ first, space, destination, tail, second, hpointy, by simp, ?_, ?_⟩
      · rw [hopening, List.length_append, Nat.add_assoc start]
      · rw [hclosing, List.length_append, Nat.add_assoc start]
  | @link space destination tail rest hpointy hlater ih =>
      have hbrackets : positions start (wrappedLink space destination tail)
          = [start + 2 + space.length, start + 3 + space.length + destination.length] := by
        simp only [wrappedLink, positions_append, positions, positions_plain, length_plain,
          List.length_cons, List.nil_append, List.cons.injEq, and_true]
        omega
      rw [positions_append, hbrackets] at hbound ⊢
      cases k with
      | zero => exact ⟨[], space, destination, tail, rest, hpointy, rfl, rfl, rfl⟩
      | succ k =>
          have hbound : 2 * k + 1 < (positions (start + (wrappedLink space destination tail).length)
              rest).length := by
            simp only [List.length_append, List.length_cons, List.length_nil] at hbound
            omega
          obtain ⟨first, space', destination', tail', second, hpointy', rfl, hopening, hclosing⟩ :=
            ih _ hbound
          refine ⟨wrappedLink space destination tail ++ first, space', destination', tail', second,
            hpointy', by simp, ?_, ?_⟩
          · rw [Nat.mul_succ, List.cons_append, List.cons_append, List.nil_append,
              List.getElem?_cons_succ, List.getElem?_cons_succ, hopening, List.length_append,
              Nat.add_assoc start]
          · rw [Nat.mul_succ, Nat.add_right_comm, List.cons_append, List.cons_append,
              List.nil_append, List.getElem?_cons_succ, List.getElem?_cons_succ, hclosing,
              List.length_append, Nat.add_assoc start]

end Bracketed

section

variable {c : Char} {first second : Text}

theorem not_mem_dropLast_left (h : c ∉ (first ++ second).dropLast) : c ∉ first.dropLast := by
  rw [List.dropLast_append] at h
  split at h
  · exact h
  · exact fun hmem => h (List.mem_append_left _ (List.dropLast_subset _ hmem))

theorem not_mem_dropLast_right (h : c ∉ (first ++ second).dropLast) : c ∉ second.dropLast := by
  rw [List.dropLast_append] at h
  split at h
  · next hempty => simp [List.isEmpty_iff.mp hempty]
  · exact fun hmem => h (List.mem_append_right _ hmem)

end

theorem Searched.bracketed {depth : Nat} {marked : Marked} (h : Searched depth marked)
    (hline : '\n' ∉ marked.kept.dropLast) : Bracketed marked := by
  induction h with
  | nil => exact .nil
  | backslash => exact .text ['\\'] .nil
  | @wrapped depth space destination tail rest hnested hpassed hfound hlater ih =>
      rw [kept_append, kept_wrappedLink] at hline
      have hwithin : '\n' ∉ space ++ destination ++ tail := by
        have hinside := not_mem_dropLast_left hline
        rw [← List.cons_append, ← List.cons_append, List.dropLast_concat] at hinside
        exact fun hmem => hinside (List.mem_cons_of_mem _ (List.mem_cons_of_mem _ hmem))
      exact .link (hfound.pointyTail hpassed hwithin) (ih (not_mem_dropLast_right hline))
  | _ =>
      rename_i ih
      rw [kept_append, kept_plain] at hline
      exact .text _ (ih (not_mem_dropLast_right hline))

theorem SearchedLines.bracketed {state : FencedLines.State} {marked : List Marked}
    (h : SearchedLines state marked) (hlines : Text.Lines (marked.map kept)) :
    Bracketed marked.flatten := by
  induction h with
  | nil => exact .nil
  | fenced hinside hlater ih => exact .text _ (ih hlines.2.2.2)
  | searched houtside hsearch hlater ih =>
      exact (hsearch.bracketed hlines.2.1).append (ih hlines.2.2.2)

theorem bracketed_markedSource (source : Text) : Bracketed (markedSource source) := by
  obtain ⟨marked, hsearched, htexts, hwhole⟩ := exists_searchedSource source
  rw [← hwhole]
  exact hsearched.bracketed (htexts ▸ Text.lines_lineSegments source)

/--
Brackets are inserted in pairs, and between each two of a pair stands a destination: the link
around it was written in the source without them, and is a link as Markdown writes one with them.
-/
theorem wrapped_links (source : Text) (wrapped : Wrapped) (h : wrap? source = some wrapped)
    (k : Nat) (hbound : 2 * k + 1 < wrapped.inserted.length) :
    ∃ before space destination tail behind, PointyTail space destination tail ∧
      "](".toList ++ space ++ destination ++ tail ++ [')'] <:+: source ∧
      wrapped.text = before ++ "](".toList ++ space ++ ['<'] ++ destination ++ ['>'] ++ tail
        ++ [')'] ++ behind ∧
      wrapped.inserted[2 * k]? = some (before.length + 2 + space.length) ∧
      wrapped.inserted[2 * k + 1]? = some (before.length + 3 + space.length +
      destination.length) := by
  rw [wrap?_eq] at h
  split at h
  · cases h
  cases h
  obtain ⟨first, space, destination, tail, second, hpointy, hsplit, hopening, hclosing⟩ :=
    (bracketed_markedSource source).exists_link 0 hbound
  refine ⟨text first, space, destination, tail, text second, hpointy, ?_, ?_, ?_, ?_⟩
  · have hwritten := congrArg kept hsplit
    rw [kept_markedSource] at hwritten
    exact ⟨kept first, kept second, by simp [hwritten]⟩
  · simp [hsplit]
  · simpa using hopening
  · simpa using hclosing

theorem wrapped_links_titled :
    ∃ wrapped, wrap? "[a](b c) [d]( e f (g\\)) )".toList = some wrapped ∧
      2 * 1 + 1 < wrapped.inserted.length ∧
      ∃ before space destination tail behind, PointyTail space destination tail ∧
        "](".toList ++ space ++ destination ++ tail ++ [')']
          <:+: "[a](b c) [d]( e f (g\\)) )".toList ∧
        wrapped.text = before ++ "](".toList ++ space ++ ['<'] ++ destination ++ ['>'] ++ tail
          ++ [')'] ++ behind ∧
        wrapped.inserted[2 * 1]? = some (before.length + 2 + space.length) ∧
        wrapped.inserted[2 * 1 + 1]?
          = some (before.length + 3 + space.length + destination.length) :=
  ⟨_, rfl, by decide, wrapped_links _ _ rfl 1 (by decide)⟩

end Canonmark.SpacedDestination
