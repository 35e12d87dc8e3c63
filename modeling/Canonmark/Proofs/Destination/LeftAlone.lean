import Canonmark.Proofs.Destination.PrintedLink
import Canonmark.Proofs.Source.TailLine

/-!
# Links that need no brackets

What stands in parentheses is searched for the same parts that the tail of a link is read in. On
one line both end a destination at white space and a title at the same quote, and without
parentheses in the title both end at the same parenthesis, so that no brackets are put into a link
as it stands. White space beyond ASCII, which ends no destination that is read, is the exception.
-/

namespace Canonmark

namespace Entity

theorem lt_of_isReferenceChar {c : Char} (h : isReferenceChar c = true) : c.toNat < 128 := by
  have hlow {d : Char} (hle : c ≤ d) (hascii : d.toNat < 128) : c.toNat < 128 :=
    Nat.lt_of_le_of_lt (UInt32.le_iff_toNat_le.mp (Char.le_def.mp hle)) hascii
  simp only [isReferenceChar, Ascii.isLetterOrDigit, Ascii.isLetter, Ascii.isDigit,
    Bool.or_eq_true, Bool.and_eq_true, decide_eq_true_eq] at h
  rcases h with (((⟨-, h⟩ | ⟨-, h⟩) | ⟨-, h⟩) | rfl) | rfl
  · exact hlow h (by decide)
  · exact hlow h (by decide)
  · exact hlow h (by decide)
  · decide
  · decide

end Entity

namespace Escape

open Entity

theorem mem_resolveFrom {skip : Nat} {text : Text} {c : Char} (hwide : 128 ≤ c.toNat)
    (hmem : c ∈ text.drop skip) : c ∈ resolveFrom skip text := by
  have hother {d : Char} (hascii : d.toNat < 128) : c ≠ d := by
    rintro rfl
    omega
  fun_induction resolveFrom skip text with
  | case1 => simp at hmem
  | case2 skip _ rest ih => exact ih (by simpa using hmem)
  | case3 d rest hpunctuation ih =>
      simp only [List.drop_zero, List.mem_cons, hother (by decide : '\\'.toNat < 128),
        false_or] at hmem
      exact List.mem_cons.mpr (hmem.imp_right fun hmem => ih (by simpa using hmem))
  | case4 d rest hletter ih =>
      simp only [List.drop_zero, List.mem_cons, hother (by decide : '\\'.toNat < 128),
        false_or] at hmem
      exact List.mem_cons_of_mem _ (ih (by simpa using hmem))
  | case5 => simpa using hmem
  | case6 rest n value hnamed _ ih =>
      have hname := reference?_take hnamed
      simp only [List.drop_zero, List.mem_cons, hother (by decide : '&'.toNat < 128),
        false_or] at hmem
      rw [← List.take_append_drop n rest, List.mem_append] at hmem
      exact List.mem_append_right _ (ih (hmem.resolve_left fun hmem =>
        hother (lt_of_isReferenceChar (hname c hmem)) rfl))
  | case7 rest _ _ ih =>
      exact List.mem_cons.mpr ((List.mem_cons.mp hmem).imp_right fun hmem => ih hmem)
  | case8 rest _ _ ih =>
      exact ih ((List.mem_cons.mp hmem).resolve_left (hother (by decide)))
  | case9 d rest _ _ _ ih =>
      exact List.mem_cons.mpr ((List.mem_cons.mp hmem).imp_right fun hmem => ih hmem)

end Escape

namespace SpacedDestination

open Source Source.LinkTail

variable {written title tail : Text}

theorem behindTitle?_skip {close : Char} {front : Text}
    (hplain : ∀ c ∈ front, c ≠ '\\' ∧ c ≠ close) (rest : Text) :
    behindTitle? close (front ++ rest) = behindTitle? close rest := by
  induction front with
  | nil => rfl
  | cons c front ih =>
      obtain ⟨⟨hbackslash, hother⟩, hlater⟩ := List.forall_mem_cons.mp hplain
      rw [List.cons_append, behindTitle?_cons hbackslash, if_neg hother, ih hlater]

theorem Passed.skip {depth deeper : Nat} {front rest : Text}
    (hplain : ∀ c ∈ front, c ≠ '\\' ∧ c ≠ '(' ∧ c ≠ ')' ∧ c ≠ '\n') (h : Passed depth rest deeper) :
    Passed depth (front ++ rest) deeper := by
  induction front with
  | nil => exact h
  | cons c front ih =>
      obtain ⟨hhere, hlater⟩ := List.forall_mem_cons.mp hplain
      exact .plain hhere (ih hlater)

theorem ne_of_isReferenceChar {c d : Char} (h : Entity.isReferenceChar c = true)
    (hother : Entity.isReferenceChar d = false) : c ≠ d := by
  rintro rfl
  exact absurd h (by simp [hother])

theorem closer_spec {start : Char} (hquote : start = '"' ∨ start = '\'' ∨ start = '(') :
    Ascii.isPunctuation (closer start) = true ∧ Entity.isReferenceChar (closer start) = false ∧
      closer start ≠ '\\' ∧ closer start ≠ '&' := by
  rcases hquote with rfl | rfl | rfl
  all_goals decide

theorem behindTitle?_quoted {start : Char} (hquote : start = '"' ∨ start = '\'' ∨ start = '(')
    (hline : '\n' ∉ written) (h : Quoted start (closer start) written title) (after : Text) :
    behindTitle? (closer start) (written ++ closer start :: after) = some after := by
  obtain ⟨hmark, hunnamed, hbackslash, hampersand⟩ := closer_spec hquote
  generalize closer start = close at *
  induction h with
  | nil => rw [List.nil_append, behindTitle?_cons hbackslash, if_pos rfl]
  | escape _ _ ih =>
      simp only [List.mem_cons, not_or] at hline
      simp only [List.cons_append, behindTitle?]
      rw [if_neg (Ne.symm hline.2.1), ih hline.2.2]
  | @backslash d rest _ hletter _ ih =>
      simp only [List.mem_cons, not_or] at hline
      have hother : d ≠ '\\' ∧ d ≠ close := by
        constructor
        · rintro rfl
          exact absurd hletter (by decide)
        · rintro rfl
          exact absurd hletter (by simp [hmark])
      have ih := ih (by simpa using hline.2)
      rw [List.cons_append, behindTitle?_cons hother.1, if_neg hother.2] at ih
      simp only [List.cons_append, behindTitle?]
      rw [if_neg (Ne.symm hline.2.1), ih]
  | @reference name _ rest _ hnamed _ ih =>
      simp only [List.mem_cons, List.mem_append, not_or] at hline
      rw [← List.cons_append, List.append_assoc, behindTitle?_skip _ _, ih hline.2.2]
      refine List.forall_mem_cons.mpr ⟨⟨by decide, hampersand.symm⟩, fun c hmem => ?_⟩
      exact ⟨ne_of_isReferenceChar (hnamed c hmem) rfl, ne_of_isReferenceChar (hnamed c hmem)
        hunnamed⟩
  | plain hother _ ih =>
      simp only [List.mem_cons, not_or] at hline
      rw [List.cons_append, behindTitle?_cons hother.1, if_neg hother.2.2, ih hline.2]

theorem Passed.quoted {start close : Char} (hplain : ∀ c ∈ title, c ≠ '(' ∧ c ≠ ')')
    (hline : '\n' ∉ written) (h : Quoted start close written title) {depth : Nat} {after : Text}
    (hlater : Passed depth after 0) : Passed depth (written ++ after) 0 := by
  induction h with
  | nil => exact hlater
  | escape _ _ ih =>
      simp only [List.mem_cons, not_or] at hline
      exact .escape _ (ih (fun c hmem => hplain c (List.mem_cons_of_mem _ hmem)) hline.2.2)
  | backslash hletter _ ih =>
      simp only [List.mem_cons, not_or] at hline
      have ih := ih (fun c hmem => hplain c (List.mem_cons_of_mem _ hmem)) (by simpa using hline.2)
      exact Passed.backslash hletter ih
  | reference hnamed _ ih =>
      simp only [List.mem_cons, List.mem_append, not_or] at hline
      rw [← List.cons_append, List.append_assoc]
      refine Passed.skip ?_ (ih (fun c hmem => hplain c (List.mem_append_right _ hmem)) hline.2.2)
      refine List.forall_mem_cons.mpr ⟨by decide, fun c hmem => ?_⟩
      have hother {d : Char} := @ne_of_isReferenceChar c d (hnamed c hmem)
      exact ⟨hother rfl, hother rfl, hother rfl, hother rfl⟩
  | plain hother _ ih =>
      simp only [List.mem_cons, not_or] at hline
      obtain ⟨hhere, hothers⟩ := List.forall_mem_cons.mp hplain
      exact .plain ⟨hother.1, hhere.1, hhere.2, Ne.symm hline.1⟩ (ih hothers hline.2)

/-! ## Tails and destinations -/

theorem isTail_ending (hline : '\n' ∉ tail) (h : Ending tail title) : isTail tail = true := by
  cases h with
  | blank hblank =>
      have hempty : tail.dropWhile Unicode.isWhitespace = [] := by
        rw [List.dropWhile_eq_nil_iff]
        exact fun c hmem => isWhitespace_of_isBlank (hblank c hmem)
      simp [isTail, hempty]
  | @titled gap written title after start hspaced hblank hquote hquoted =>
      simp only [List.mem_cons, List.mem_append, not_or] at hline
      have hspace {c : Char} (hmem : c ∈ gap ++ after) : Unicode.isWhitespace c = true :=
        isWhitespace_of_isBlank (hblank c hmem)
      have hvisible : Unicode.isWhitespace start = false := by
        rcases hquote with rfl | rfl | rfl
        all_goals rfl
      have hcontent : (gap ++ start :: (written ++ closer start :: after)).dropWhile
          Unicode.isWhitespace = start :: (written ++ closer start :: after) := by
        rw [List.dropWhile_append_of_pos fun c hmem => hspace (List.mem_append_left _ hmem)]
        simp [hvisible]
      have hbehind := behindTitle?_quoted hquote hline.2.2.1 hquoted after
      have htrailing : Unicode.isBlank after = true :=
        List.all_eq_true.mpr fun c hmem => hspace (List.mem_append_right _ hmem)
      have htitled : isTitle (start :: (written ++ closer start :: after)) = true := by
        rcases hquote with rfl | rfl | rfl
        all_goals exact (congrArg (Option.any Unicode.isBlank) hbehind).trans htrailing
      have hlength := List.length_pos_of_ne_nil hspaced
      simp only [isTail, hcontent, htitled, List.isEmpty_cons, List.length_append, Bool.false_or,
        Bool.and_true, decide_eq_true_eq]
      omega

theorem passed_blank {gap rest : Text} {depth deeper : Nat}
    (hblank : ∀ c ∈ gap, Ascii.isBlank c = true) (hlater : Passed depth rest deeper) :
    Passed depth (gap ++ rest) deeper := by
  refine Passed.skip (fun c hmem => ?_) hlater
  obtain ⟨hbackslash, hopens, hcloses⟩ :=
    not_paren_of_isWhitespace (isWhitespace_of_isBlank (hblank c hmem))
  refine ⟨hbackslash, hopens, hcloses, ?_⟩
  rintro rfl
  exact absurd (hblank _ hmem) (by decide)

theorem passed_ending (hplain : ∀ c ∈ title, c ≠ '(' ∧ c ≠ ')') (hline : '\n' ∉ tail)
    (h : Ending tail title) : Passed 0 tail 0 := by
  cases h with
  | blank hblank => simpa using passed_blank hblank (.nil 0)
  | @titled gap written title after start hspaced hblank hquote hquoted =>
      simp only [List.mem_cons, List.mem_append, not_or] at hline
      have htrailing : Passed 0 after 0 := by
        simpa using passed_blank (fun c hmem => hblank c (List.mem_append_right _ hmem)) (.nil 0)
      have hinside {depth : Nat} := @Passed.quoted _ _ _ _ hplain hline.2.2.1 hquoted depth
      refine passed_blank (fun c hmem => hblank c (List.mem_append_left _ hmem)) ?_
      rcases hquote with rfl | rfl | rfl
      · exact .plain (by decide) (hinside (.plain (by decide) htrailing))
      · exact .plain (by decide) (hinside (.plain (by decide) htrailing))
      · exact .opens (hinside (.closes htrailing))

theorem passed_bare {behind : Text} {nesting : Nat}
    (h : Bare (tail ++ ')' :: behind) nesting written) (hlater : Passed 0 tail 0) :
    Passed nesting (written ++ tail) 0 := by
  induction h with
  | stop => exact hlater
  | escape _ _ ih => exact .escape _ ih
  | @backslash nesting rest hletter _ ih =>
      rw [List.cons_append]
      generalize hwhole : rest ++ tail = more at ih
      rw [← List.append_assoc, hwhole] at hletter
      cases more with
      | nil => exact absurd (hletter ')' rfl) (by decide)
      | cons d more => exact ih.backslash (hletter d rfl)
  | opens _ ih => exact .opens ih
  | closes _ ih => exact .closes ih
  | plain hvisible hother _ ih =>
      refine .plain ⟨hother.1, hother.2.1, hother.2.2, ?_⟩ ih
      rintro rfl
      exact absurd hvisible (by decide)

variable {context : InlineContext} {tokens : List Token} {position : Nat}
variable {inner behind destination : Text}

theorem find?_bracket {gap rest : Text} (hblank : ∀ c ∈ gap, Unicode.isWhitespace c = true) :
    find? (gap ++ '<' :: rest) = none := by
  have hvisible : Unicode.isWhitespace '<' = false := rfl
  have hcontent : (gap ++ '<' :: rest).dropWhile Unicode.isWhitespace = '<' :: rest := by
    rw [List.dropWhile_append_of_pos hblank]
    simp [hvisible]
  rw [find?, hcontent]
  simp

/--
Nothing is found in the parentheses of a link on one line, wherever the search takes them to end,
as long as no parenthesis of the title leads it astray. White space beyond ASCII is part of a
destination that is read, but not of one that is searched for.
-/
theorem find?_read (hle : context.base ≤ position)
    (htext : context.textAt position = '(' :: (inner ++ ')' :: behind))
    (hline : '\n' ∉ inner ∧ '\r' ∉ inner)
    (hread : read? context tokens position
      = some (destination, title, position + inner.length + 2))
    (hplain : ∀ c ∈ title, c ≠ '(' ∧ c ≠ ')')
    (hsolid : ∀ c ∈ destination, Unicode.isWhitespace c = true → c.toNat < 128) (rest : Text)
    {n : Nat} (hcloses : closingParen? 0 (inner ++ ')' :: rest) = some n) :
    find? ((inner ++ ')' :: rest).take n) = none := by
  obtain ⟨gap, content, rfl, hblank, hvisible, hparts⟩ := parts_of_read? hle htext hline hread
  have hspace : ∀ c ∈ gap, Unicode.isWhitespace c = true := fun c hmem =>
    isWhitespace_of_isBlank (hblank c hmem)
  rcases hparts with hbracket | ⟨written, tail, rfl, hbare, rfl, hending⟩
  · -- The bracket stands in front of whatever closes the parentheses.
    obtain ⟨content, rfl⟩ := List.head?_eq_some_iff.mp hbracket
    have hpassed : Passed 0 (gap ++ ['<']) 0 := passed_blank hblank (.plain (by decide) (.nil 0))
    rw [show gap ++ '<' :: content ++ ')' :: rest = (gap ++ ['<']) ++ (content ++ ')' :: rest) by
      simp] at hcloses ⊢
    rw [hpassed.closingParen?] at hcloses
    obtain ⟨m, -, rfl⟩ := Option.map_eq_some_iff.mp hcloses
    rw [Nat.add_comm, List.take_length_add_append, List.append_assoc]
    exact find?_bracket hspace
  · simp only [List.mem_append, not_or] at hline
    have hpassed : Passed 0 (gap ++ (written ++ tail)) 0 :=
      passed_blank hblank (passed_bare hbare (passed_ending hplain hline.1.2.2 hending))
    rw [hpassed.closes_behind] at hcloses
    obtain rfl := Option.some.inj hcloses
    rw [List.take_left]
    refine find?_parts hspace (fun c hmem => ?_) (isTail_ending hline.1.2.2 hending) fun hempty =>
      ?_
    · refine isWhitespace_eq_false (hbare.visible c hmem) fun hspace => ?_
      by_contra hwide
      exact hwide (hsolid c (Escape.mem_resolveFrom (by omega) hmem) hspace)
    · exact hending.eq_nil fun c hmem => hvisible c (by simpa [hempty] using hmem)

/-! ## What is found in a source -/

def FoundIn (position : Nat) (text : Text) (span : Span) : Prop :=
  ∃ front inside n offset, text = front ++ ']' :: '(' :: inside ∧
    closingParen? 0 inside = some n ∧ find? (inside.take n) = some offset ∧
    span = offset.shift (position + front.length + 2)

namespace FoundIn

variable {text : Text} {span : Span}

theorem prepend {front : Text} (h : FoundIn (position + front.length) text span) :
    FoundIn position (front ++ text) span := by
  obtain ⟨before, inside, n, offset, rfl, hcloses, hfound, rfl⟩ := h
  refine ⟨front ++ before, inside, n, offset, by simp, hcloses, hfound, ?_⟩
  simp [Nat.add_assoc]

theorem drop {n : Nat} (h : FoundIn (position + n) (text.drop n) span) :
    FoundIn position text span := by
  have hfilled : text.drop n ≠ [] := by
    obtain ⟨front, inside, -, -, hsplit, -⟩ := h
    simp [hsplit]
  have hshort : n ≤ text.length := by
    by_contra hlong
    exact hfilled (List.drop_eq_nil_of_le (by omega))
  rw [← List.take_append_drop n text]
  refine prepend ?_
  rwa [List.length_take_of_le hshort]

theorem append (h : FoundIn position text span) (more : Text) :
    FoundIn position (text ++ more) span := by
  obtain ⟨front, inside, n, offset, rfl, hcloses, hfound, rfl⟩ := h
  have hsplit := closingParen?_split hcloses
  have hshort := Nat.le_of_lt (closingParen?_lt hcloses)
  refine ⟨front, inside ++ more, n, offset, by simp, ?_, ?_, rfl⟩
  · have hpassed := (passed_of_closingParen? hcloses).closes_behind (inside.drop (n + 1) ++ more)
    rw [List.length_take_of_le hshort] at hpassed
    rw [hsplit]
    simpa using hpassed
  · rwa [List.take_append_of_le_length hshort]

end FoundIn

theorem foundIn_onLine (fuel depth position : Nat) (text : Text) :
    ∀ span ∈ onLine fuel depth position text, FoundIn position text span := by
  fun_induction onLine fuel depth position text with
  | case1 => simp
  | case2 => simp
  | case3 fuel depth position rest ih =>
      exact fun span hmem => FoundIn.drop (n := 2) (ih span hmem)
  | case4 fuel depth position rest _ n ih => exact fun span hmem => FoundIn.drop (ih span hmem)
  | case5 fuel depth position rest _ _ ih =>
      exact fun span hmem => FoundIn.drop (n := 1) (ih span hmem)
  | case6 fuel depth position c rest _ _ _ _ start inner _ ih =>
      exact fun span hmem => FoundIn.drop (n := 2) (ih span hmem)
  | case7 fuel depth position c rest _ _ _ hopened start inner n hcloses found ih =>
      simp only [Bool.and_eq_true, decide_eq_true_eq] at hopened
      obtain ⟨⟨rfl, -⟩, hparen⟩ := hopened
      obtain ⟨inside, rfl⟩ := List.head?_eq_some_iff.mp hparen
      intro span hmem
      rcases List.mem_append.mp hmem with hmem | hmem
      · obtain ⟨offset, hsearch, rfl⟩ := Option.map_eq_some_iff.mp (Option.mem_toList.mp hmem)
        exact ⟨[], inside, n, offset, rfl, hcloses, hsearch, rfl⟩
      · refine FoundIn.drop (n := n + 3) ?_
        have hlater := ih span hmem
        simp only [inner, start, List.drop_one, List.tail_cons] at hlater
        simpa [Nat.add_assoc, Nat.add_comm, Nat.add_left_comm] using hlater
  | case8 fuel depth position c rest _ _ _ _ ih =>
      exact fun span hmem => FoundIn.drop (n := 1) (ih span hmem)

theorem foundIn_onLines (state : FencedLines.State) (position : Nat) (lines : List Text) :
    ∀ span ∈ onLines state position lines, FoundIn position lines.flatten span := by
  induction lines generalizing state position with
  | nil => simp [onLines]
  | cons line rest ih =>
      intro span hmem
      rw [onLines_cons, List.mem_append] at hmem
      rw [List.flatten_cons]
      rcases hmem with hmem | hmem
      · split at hmem
        · cases hmem
        · exact (foundIn_onLine _ _ _ _ span hmem).append _
      · exact FoundIn.prepend (ih _ _ span hmem)

theorem foundIn_spans {source : Text} {span : Span} (h : span ∈ spans source) :
    FoundIn 0 source span := by
  have hfound := foundIn_onLines none 0 (Text.lineSegments source) span h
  rwa [Text.flatten_lineSegments] at hfound

/--
Brackets are put into no link on one line, unless it has parentheses in its title or white space
beyond ASCII in its destination: in the parentheses around what is wrapped, no other is read.
-/
theorem not_read_of_mem_spans {source : Text} (hcarriage : '\r' ∉ source) {span : Span}
    (h : span ∈ spans source) :
    ∃ front inside n, source = front ++ ']' :: '(' :: inside ∧
      closingParen? 0 inside = some n ∧ front.length + 2 ≤ span.start ∧
      span.stop ≤ front.length + 2 + n ∧
      ∀ (context : InlineContext), context.Within source → context.base ≤ front.length + 1 →
        ∀ (tokens : List Token) (destination title : Text) (stop : Nat),
          read? context tokens (front.length + 1) = some (destination, title, stop) →
          '\n' ∉ Span.slice (.upTo (front.length + 1) stop) source →
          (∀ c ∈ title, c ≠ '(' ∧ c ≠ ')') →
          ∃ c ∈ destination, Unicode.isWhitespace c = true ∧ 128 ≤ c.toNat := by
  obtain ⟨front, inside, n, offset, rfl, hcloses, hfound, rfl⟩ := foundIn_spans h
  obtain ⟨-, hbound⟩ := find?_bounds hfound
  rw [List.length_take_of_le (Nat.le_of_lt (closingParen?_lt hcloses))] at hbound
  refine ⟨front, inside, n, rfl, hcloses, by simp, by simp only [Span.stop_shift]; omega, ?_⟩
  intro context hwithin hle tokens destination title stop hread hline hplain
  obtain ⟨inner, behind, htext, rfl⟩ := read?_split hle hread
  have hopening : (front ++ ']' :: '(' :: inside).drop (front.length + 1) = '(' :: inside := by
    rw [List.drop_append]
    simp
  obtain ⟨rest, hsplit⟩ := hwithin.isPrefix hle
  rw [hopening, htext, List.cons_append, List.append_assoc, List.cons_append] at hsplit
  obtain rfl := (List.cons.inj hsplit).2
  have hslice : Span.slice (.upTo (front.length + 1) (front.length + 1 + inner.length + 2))
      (front ++ ']' :: '(' :: (inner ++ ')' :: (behind ++ rest))) = '(' :: (inner ++ [')']) := by
    have hwhole : '(' :: (inner ++ ')' :: (behind ++ rest))
        = ('(' :: (inner ++ [')'])) ++ (behind ++ rest) := by simp
    rw [Nat.add_assoc _ inner.length, Span.upTo_add, Span.slice_ofLength, hopening, hwhole]
    exact List.take_left' (by simp)
  rw [hslice] at hline
  simp only [List.mem_cons, List.mem_append, not_or] at hline hcarriage
  by_contra hsolid
  refine Option.some_ne_none _ (hfound.symm.trans ?_)
  refine find?_read hle htext ⟨hline.2.1, hcarriage.2.2.2.1⟩ hread hplain (fun c hmem hspace => ?_)
    _ hcloses
  by_contra hwide
  exact hsolid ⟨c, hmem, hspace, by omega⟩

end SpacedDestination

end Canonmark
