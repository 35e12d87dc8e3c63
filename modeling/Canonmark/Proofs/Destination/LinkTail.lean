import Canonmark.Document.Printer
import Canonmark.Proofs.Destination.Encoding
import Canonmark.Proofs.Source.Closing
import Canonmark.Proofs.Text.Escaping
import Canonmark.Source.Inline

/-!
# Link tails are read back

A destination that is percent coded has balanced parentheses and no character that ends it, so
that what is printed behind a link's text is read as the same destination and title. What the
printer leaves as it is, the reader may take for something else: a character reference, a line
break in a title, a title without a destination, and parentheses nested too deeply.
-/

namespace Canonmark

namespace Printer

open Entity

theorem escapeDestination_cons {c : Char} (h : c ≠ '\\') (rest : Text) :
    escapeDestination (c :: rest) = c :: escapeDestination rest := by
  simp [escapeDestination, h]

theorem head?_escapeDestination (text : Text) : (escapeDestination text).head? = text.head? := by
  cases text with
  | nil => rfl
  | cons c rest => rfl

theorem escapeDestination_backslash (rest : Text) :
    escapeDestination ('\\' :: rest) = '\\' :: '\\' :: escapeDestination rest ∨
      ∃ d tail, Ascii.isPunctuation d = false ∧ escapeDestination rest = d :: tail ∧
        escapeDestination ('\\' :: rest) = '\\' :: d :: tail := by
  cases rest with
  | nil => exact .inl rfl
  | cons d rest =>
      obtain ⟨tail, hsame⟩ := List.head?_eq_some_iff.mp (head?_escapeDestination (d :: rest))
      by_cases h : Ascii.isPunctuation d = true
      · exact .inl (by rw [escapeDestination]; simp [h])
      · refine .inr ⟨d, tail, by simpa using h, hsame, ?_⟩
        rw [escapeDestination, hsame]
        simp [h]

theorem mem_escapeDestination {destination : Text} {c : Char}
    (h : c ∈ escapeDestination destination) : c ∈ destination := by
  induction destination with
  | nil => exact h
  | cons d rest ih =>
      by_cases hbackslash : d = '\\'
      · subst hbackslash
        obtain hdoubled | ⟨d, tail, -, hsame, hsingle⟩ := escapeDestination_backslash rest
        · rw [hdoubled, List.mem_cons, List.mem_cons] at h
          rcases h with rfl | rfl | h
          · exact List.mem_cons_self
          · exact List.mem_cons_self
          · exact List.mem_cons_of_mem _ (ih h)
        · rw [hsingle, ← hsame, List.mem_cons] at h
          exact List.mem_cons.mpr (h.imp_right ih)
      · rw [escapeDestination_cons hbackslash, List.mem_cons] at h
        exact List.mem_cons.mpr (h.imp_right ih)

theorem unescape_escapeDestination (destination behind : Text) :
    Escape.unescape (escapeDestination destination ++ behind)
      = destination ++ Escape.unescape behind := by
  induction destination with
  | nil => rfl
  | cons c rest ih =>
      by_cases hbackslash : c = '\\'
      · subst hbackslash
        obtain hdoubled | ⟨d, tail, hletter, hsame, hsingle⟩ := escapeDestination_backslash rest
        · rw [hdoubled, List.cons_append, List.cons_append, Escape.unescape_escaped rfl, ih,
            List.cons_append]
        · rw [hsame, List.cons_append] at ih
          rw [hsingle, List.cons_append, List.cons_append, Escape.unescape_backslash hletter, ih,
            List.cons_append]
      · rw [escapeDestination_cons hbackslash, List.cons_append, Escape.unescape_cons hbackslash,
          ih, List.cons_append]

@[simp] theorem escapeTitle_nil : escapeTitle [] = [] := rfl

theorem escapeTitle_cons (c : Char) (rest : Text) :
    escapeTitle (c :: rest)
      = (if c = '\\' ∨ c = '"' then ['\\', c] else [c]) ++ escapeTitle rest := by
  simp [escapeTitle]

theorem length_le_escapeTitle (title : Text) : title.length ≤ (escapeTitle title).length := by
  induction title with
  | nil => exact Nat.le_refl _
  | cons c rest ih =>
      rw [escapeTitle_cons]
      split
      all_goals
        simp only [List.length_append, List.length_cons, List.length_nil]
        omega

theorem takeWhile_escapeDestination (text : Text) :
    (escapeDestination text).takeWhile isReferenceChar = text.takeWhile isReferenceChar := by
  induction text with
  | nil => rfl
  | cons c rest ih =>
      by_cases h : c = '\\'
      · subst h
        rfl
      · rw [escapeDestination_cons h, List.takeWhile_cons, List.takeWhile_cons, ih]

theorem absent_escapeDestination (text : Text) : absent (escapeDestination text) = absent text := by
  induction text with
  | nil => rfl
  | cons c rest ih =>
      by_cases h : c = '\\'
      · subst h
        obtain hdoubled | ⟨d, tail, -, hsame, hsingle⟩ := escapeDestination_backslash rest
        · rw [hdoubled]
          simpa [absent] using ih
        · rw [hsingle, ← hsame]
          simpa [absent] using ih
      · rw [escapeDestination_cons h, absent, absent, ih,
          reference?_congr (takeWhile_escapeDestination rest)]

theorem takeWhile_escapeTitle (text : Text) :
    (escapeTitle text).takeWhile isReferenceChar = text.takeWhile isReferenceChar := by
  induction text with
  | nil => rfl
  | cons c rest ih =>
      rw [escapeTitle_cons]
      split
      · rename_i h
        rcases h with rfl | rfl
        all_goals rfl
      · rw [List.cons_append, List.nil_append, List.takeWhile_cons, List.takeWhile_cons, ih]

end Printer

namespace Escape

open Printer Entity

theorem resolve_escapeDestination {text : Text} (hliteral : absent text = true)
    (hline : '\r' ∉ text) : resolve (escapeDestination text) = text := by
  have hundone := unescape_escapeDestination text []
  rw [resolve_eq_unescape (by rwa [absent_escapeDestination])
    fun hmem => hline (mem_escapeDestination hmem)]
  simpa [unescape] using hundone

end Escape

namespace Source

open Printer Entity

namespace Destination

variable {limit nesting : Nat}

theorem bare?_cons {c : Char} (h : c ≠ '\\') (rest : Text) :
    bare? limit nesting (c :: rest) =
      if c ≤ ' ' then (if nesting = 0 then some [] else none)
      else if c = '(' then
        if nesting > limit then none else (bare? limit (nesting + 1) rest).map (c :: ·)
      else if c = ')' then
        if nesting = 0 then some [] else (bare? limit (nesting - 1) rest).map (c :: ·)
      else (bare? limit nesting rest).map (c :: ·) := by
  rw [bare?.eq_3]
  rintro _ _ rfl
  exact absurd rfl h

theorem bare?_escapeDestination {text behind : Text}
    (hplain : ∀ c ∈ text, ' ' < c) (hbalanced : Parentheses.balanced nesting text = true)
    (hshallow : Parentheses.depth nesting text ≤ limit + 1)
    (hends : bare? limit 0 behind = some []) :
    bare? limit nesting (escapeDestination text ++ behind) = some (escapeDestination text) := by
  induction text generalizing nesting with
  | nil =>
      have hnone : nesting = 0 := by simpa [Parentheses.balanced] using hbalanced
      simpa [escapeDestination, hnone] using hends
  | cons c rest ih =>
      obtain ⟨hvisible, hothers⟩ := List.forall_mem_cons.mp hplain
      by_cases hbackslash : c = '\\'
      · subst hbackslash
        have ih := ih hothers (by simpa [Parentheses.balanced] using hbalanced)
          (by simpa [Parentheses.depth] using hshallow)
        obtain hdoubled | ⟨d, tail, hletter, hsame, hsingle⟩ := escapeDestination_backslash rest
        · rw [hdoubled, List.cons_append, List.cons_append, bare?, if_pos (by decide), ih]
          rfl
        · rw [hsame, List.cons_append] at ih
          rw [hsingle, List.cons_append, List.cons_append, bare?, if_neg (by simp [hletter]), ih]
          rfl
      · rw [escapeDestination_cons hbackslash, List.cons_append, bare?_cons hbackslash,
          if_neg (by simpa using hvisible)]
        by_cases hopens : c = '('
        · subst hopens
          have hdeep := Parentheses.le_depth (nesting + 1) rest
          simp only [Parentheses.depth, if_pos] at hshallow
          rw [if_pos rfl, if_neg (by omega),
            ih hothers (by simpa [Parentheses.balanced] using hbalanced) hshallow]
          rfl
        · by_cases hcloses : c = ')'
          · subst hcloses
            simp only [Parentheses.balanced, Parentheses.depth, if_neg hopens, if_pos,
              Bool.and_eq_true, decide_eq_true_eq] at hbalanced hshallow
            rw [if_neg hopens, if_pos rfl, if_neg (by omega), ih hothers hbalanced.2 (by omega)]
            rfl
          · rw [if_neg hopens, if_neg hcloses,
              ih hothers (by simpa [Parentheses.balanced, hopens, hcloses] using hbalanced)
                (by simpa [Parentheses.depth, hopens, hcloses] using hshallow)]
            rfl

end Destination

/-! ## Titles and tails -/

namespace LinkTail

variable {context : InlineContext} {tokens : List Token} {position : Nat}

theorem titleStep_escape {c : Char} (h : c = '\\' ∨ c = '"') (kept rest : Text) :
    titleStep context tokens kept position '\\' (c :: rest) = (c :: kept, position + 2, rest) := by
  rcases h with rfl | rfl
  all_goals rfl

theorem titleStep_plain {c : Char} {rest : Text} (hline : c ≠ '\n' ∧ c ≠ '\r')
    (hbackslash : c ≠ '\\') (hliteral : c = '&' → reference? rest = none) (kept : Text) :
    titleStep context tokens kept position c rest = (c :: kept, position + 1, rest) := by
  simp only [titleStep, hline, hbackslash, decide_false, Bool.or_self, Bool.false_eq_true, if_false]
  by_cases hampersand : c = '&'
  · rw [if_pos hampersand, hliteral hampersand]
  · rw [if_neg hampersand]

theorem titleFrom?_escapeTitle {fuel : Nat} {kept title : Text} (hlong : title.length < fuel)
    (hliteral : absent title = true) (hline : '\n' ∉ title ∧ '\r' ∉ title) (behind : Text) :
    titleFrom? context tokens '"' '"' fuel kept position (escapeTitle title ++ '"' :: behind)
      = some (kept.reverse ++ title, position + (escapeTitle title).length + 1) := by
  induction title generalizing fuel kept position with
  | nil =>
      cases fuel with
      | zero => exact absurd hlong (Nat.lt_irrefl 0)
      | succ fuel => simp [titleFrom?]
  | cons c rest ih =>
      cases fuel with
      | zero => exact absurd hlong (Nat.not_lt_zero _)
      | succ fuel =>
      simp only [absent, Bool.and_eq_true] at hliteral
      simp only [List.mem_cons, not_or] at hline
      have hshort : rest.length < fuel := Nat.lt_of_succ_lt_succ hlong
      have hinLine : '\n' ∉ rest ∧ '\r' ∉ rest := ⟨hline.1.2, hline.2.2⟩
      rw [escapeTitle_cons]
      split
      · rename_i hescaped
        simp only [List.cons_append, List.nil_append, titleFrom?]
        rw [if_neg (by decide), if_neg (by decide), titleStep_escape hescaped]
        simp only [ih hshort hliteral.2 hinLine, List.reverse_cons, List.append_assoc,
          List.cons_append, List.nil_append, List.length_cons]
        congr 2
        omega
      · rename_i hplain
        simp only [not_or] at hplain
        have hfree : c = '&' → reference? (escapeTitle rest ++ '"' :: behind) = none := by
          intro hampersand
          rw [reference?_append (by simp; decide), reference?_congr (takeWhile_escapeTitle rest)]
          simpa [hampersand] using hliteral.1
        simp only [List.cons_append, List.nil_append, titleFrom?]
        rw [if_neg hplain.2, if_neg hplain.2,
          titleStep_plain ⟨Ne.symm hline.1.1, Ne.symm hline.2.1⟩ hplain.1 hfree]
        simp only [ih hshort hliteral.2 hinLine, List.reverse_cons, List.append_assoc,
          List.cons_append, List.nil_append, List.length_cons]
        congr 2
        omega

theorem eol?_visible {c : Char} (h : Ascii.isSpace c = false) (rest : Text) :
    eol? (c :: rest) = none := by
  simp only [Ascii.isSpace, Bool.or_eq_false_iff, decide_eq_false_iff_not] at h
  rw [eol?.eq_5]
  all_goals simp [h.1.2, h.2]

theorem isBlank_visible {c : Char} (h : Ascii.isSpace c = false) : Ascii.isBlank c = false := by
  simp only [Ascii.isSpace, Bool.or_eq_false_iff] at h
  exact h.1.1

theorem space_visible {c : Char} (h : Ascii.isSpace c = false) (rest : Text) :
    space context (c :: rest) = 0 := by
  have hblanks : countWhile Ascii.isBlank (c :: rest) = 0 := by
    simp [countWhile, isBlank_visible h]
  simp only [space, hblanks, List.drop_zero, eol?_visible h]

theorem space_single {c : Char} (h : Ascii.isSpace c = false) (rest : Text) :
    space context (' ' :: c :: rest) = 1 := by
  have hblank : Ascii.isBlank ' ' = true := rfl
  have hblanks : countWhile Ascii.isBlank (' ' :: c :: rest) = 1 := by
    simp [countWhile, hblank, isBlank_visible h]
  simp only [space, hblanks, List.drop_one, List.tail_cons, eol?_visible h]

/--
Destinations and titles that the printer can write down: what it does not escape means itself.
-/
structure Printable (destination : Text) (title : Option Text) : Prop where
  shallow : Parentheses.depth 0 (Percent.encode destination) ≤ maxNesting + 1
  literal : absent destination = true
  title_literal : ∀ text ∈ title, absent text = true
  title_line : ∀ text ∈ title, '\n' ∉ text ∧ '\r' ∉ text
  titled : destination = [] → title = none

theorem not_isSpace_of_lt {c : Char} (h : ' ' < c) : Ascii.isSpace c = false := by
  have hother : ∀ d, d ≤ ' ' → c ≠ d := by
    rintro d hlow rfl
    exact Char.not_le.mpr h hlow
  simp only [Ascii.isSpace, Ascii.isBlank, Bool.or_eq_false_iff, decide_eq_false_iff_not]
  refine ⟨⟨⟨⟨⟨?_, ?_⟩, ?_⟩, ?_⟩, ?_⟩, ?_⟩
  all_goals exact hother _ (by decide)

theorem scan?_encode {destination : Text}
    (hshallow : Parentheses.depth 0 (Percent.encode destination) ≤ maxNesting + 1)
    {behind : Text} (hends : Destination.bare? maxNesting 0 behind = some [])
    (hopen : behind.head? ≠ some '<') :
    Destination.scan? maxNesting (escapeDestination (Percent.encode destination) ++ behind)
      = some (escapeDestination (Percent.encode destination),
          (escapeDestination (Percent.encode destination)).length) := by
  have hplain : ∀ c ∈ Percent.encode destination, Percent.isPlain c = true := fun c hmem =>
    Percent.isPlain_of_mem_encodeFrom hmem
  have hbare := Destination.bare?_escapeDestination
    (fun c hmem => Percent.lt_of_isPlain (hplain c hmem)) (Percent.balanced_encode destination)
    hshallow hends
  rw [Destination.scan?.eq_2, hbare]
  · rfl
  · intro rest hfront
    have hhead := congrArg List.head? hfront
    rw [List.head?_append, head?_escapeDestination] at hhead
    cases h : (Percent.encode destination).head? with
    | none =>
        rw [h] at hhead
        exact hopen hhead
    | some c =>
        rw [h] at hhead
        obtain rfl : c = '<' := Option.some.inj hhead
        exact absurd (hplain '<' (List.mem_of_head? h)) (by decide)

theorem space_encode {destination behind : Text}
    (hends : Percent.encode destination = [] → behind.head? = some ')') :
    space context (escapeDestination (Percent.encode destination) ++ behind) = 0 := by
  have hhead : (escapeDestination (Percent.encode destination) ++ behind).head?
      = (Percent.encode destination).head?.or behind.head? := by
    rw [List.head?_append, head?_escapeDestination]
  cases h : Percent.encode destination with
  | nil =>
      obtain ⟨rest, hsame⟩ := List.head?_eq_some_iff.mp (hends h)
      rw [hsame]
      exact space_visible (by decide) _
  | cons c coded =>
      have hmem : c ∈ Percent.encode destination := h ▸ List.mem_cons_self
      have hplain : Percent.isPlain c = true := Percent.isPlain_of_mem_encodeFrom hmem
      rw [h] at hhead
      obtain ⟨rest, hsame⟩ := List.head?_eq_some_iff.mp hhead
      rw [hsame]
      exact space_visible (not_isSpace_of_lt (Percent.lt_of_isPlain hplain)) _

theorem encode_eq_nil {destination : Text} (h : Percent.encode destination = []) :
    destination = [] := by
  cases destination with
  | nil => rfl
  | cons c rest =>
      simp only [Percent.encode, Percent.encodeFrom] at h
      split at h
      all_goals cases h

theorem title?_escapeTitle {title : Text} (hliteral : absent title = true)
    (hline : '\n' ∉ title ∧ '\r' ∉ title) (behind : Text) :
    title? context tokens position ('"' :: (escapeTitle title ++ '"' :: behind))
      = some (title, position + 1 + (escapeTitle title).length + 1) := by
  have hlong : title.length < (escapeTitle title ++ '"' :: behind).length + 1 := by
    have := length_le_escapeTitle title
    simp only [List.length_append, List.length_cons]
    omega
  rw [title?, if_pos (by decide), if_neg (by decide)]
  exact titleFrom?_escapeTitle hlong hliteral hline behind

theorem textAt_destination {written behind : Text} (hinside : context.base ≤ position)
    (htext : context.textAt position = '(' :: (written ++ behind)) :
    context.textAt (position + 1) = written ++ behind ∧
      ∀ n, context.textAt (position + 1 + written.length + n) = behind.drop n := by
  constructor
  · rw [InlineContext.textAt_add hinside, htext]
    rfl
  · intro n
    rw [Nat.add_assoc, Nat.add_assoc, InlineContext.textAt_add hinside, htext, Nat.add_comm,
      List.drop_succ_cons, ← List.drop_drop, List.drop_left]

/-- What is printed behind the text of a link is read back. -/
theorem read?_linkTail {destination : Text} {title : Option Text}
    (hprintable : Printable destination title) (hinside : context.base ≤ position) {behind : Text}
    (htext : context.textAt position
      = (linkTail (Percent.encode destination) title).drop 1 ++ behind) :
    read? context tokens position
      = some (Percent.encode destination, title.getD [],
          position + ((linkTail (Percent.encode destination) title).length - 1)) := by
  have hresolved : Escape.resolve (escapeDestination (Percent.encode destination))
      = Percent.encode destination := by
    refine Escape.resolve_escapeDestination
      (Percent.absent_encodeFrom hprintable.literal _ _) fun hmem => ?_
    exact absurd (Percent.isPlain_of_mem_encodeFrom hmem) (by decide)
  generalize hwritten : escapeDestination (Percent.encode destination) = written at hresolved
  have hlast : space context (')' :: behind) = 0 := space_visible (by decide) _
  cases title with
  | none =>
      have htext : context.textAt position = '(' :: (written ++ ')' :: behind) := by
        rw [htext]
        simp [linkTail, hwritten]
      obtain ⟨hstart, hfollows⟩ := textAt_destination hinside htext
      have hfront : space context (written ++ ')' :: behind) = 0 :=
        hwritten ▸ space_encode fun _ => rfl
      have hscanned : Destination.scan? maxNesting (written ++ ')' :: behind)
          = some (written, written.length) :=
        hwritten ▸ scan?_encode hprintable.shallow rfl (by simp)
      have huntitled : ∀ position, title? context tokens position (')' :: behind) = none :=
        fun _ => rfl
      have hstop := hfollows 0
      simp only [Nat.add_zero, List.drop_zero] at hstop
      simp only [read?, htext, hfront, Nat.add_zero, hstart, hscanned, Option.bind_some, hstop,
        hlast, huntitled, hresolved]
      simp [linkTail, hwritten]
      omega
  | some title =>
      have hnamed : destination ≠ [] := fun h => Option.some_ne_none _ (hprintable.titled h)
      generalize hquoted : '"' :: (escapeTitle title ++ '"' :: ')' :: behind) = quoted
      have htext : context.textAt position = '(' :: (written ++ ' ' :: quoted) := by
        rw [htext, ← hquoted]
        simp [linkTail, hwritten]
      obtain ⟨hstart, hfollows⟩ := textAt_destination hinside htext
      have hfront : space context (written ++ ' ' :: quoted) = 0 :=
        hwritten ▸ space_encode fun h => absurd (encode_eq_nil h) hnamed
      have hscanned : Destination.scan? maxNesting (written ++ ' ' :: quoted)
          = some (written, written.length) :=
        hwritten ▸ scan?_encode hprintable.shallow rfl (by simp)
      have hgap : space context (' ' :: quoted) = 1 := hquoted ▸ space_single (by decide) _
      have htitled : title? context tokens (position + 1 + written.length + 1) quoted
          = some (title, position + 1 + written.length + 1 + 1 + (escapeTitle title).length + 1) :=
        hquoted ▸ title?_escapeTitle (hprintable.title_literal _ rfl)
          (hprintable.title_line _ rfl) _
      have hstop : context.textAt
          (position + 1 + written.length + 1 + 1 + (escapeTitle title).length + 1)
            = ')' :: behind := by
        rw [show position + 1 + written.length + 1 + 1 + (escapeTitle title).length + 1
            = position + 1 + written.length + ((escapeTitle title).length + 1 + 1 + 1) by omega,
          hfollows, List.drop_succ_cons, ← hquoted, List.drop_succ_cons, ← List.drop_drop,
          List.drop_left]
        rfl
      have hbehindDestination := hfollows 0
      have hbehindGap := hfollows 1
      simp only [Nat.add_zero, List.drop_zero, List.drop_succ_cons] at hbehindDestination hbehindGap
      simp only [read?, htext, hfront, Nat.add_zero, hstart, hscanned, Option.bind_some,
        hbehindDestination, hgap, hbehindGap, htitled, hstop, hlast, hresolved]
      simp [linkTail, hwritten]
      omega

end LinkTail

/-- With a bracket open that may start a link, the printed tail of a link makes it one again. -/
theorem closingBracket_linkTail {context : InlineContext} {span : Span} {state : LinkState}
    {bracket : OpenBracket} {brackets : List OpenBracket}
    (hopened : state.brackets = bracket :: brackets) (hactive : bracket.active = true)
    {destination : Text} {title : Option Text} (hprintable : LinkTail.Printable destination title)
    (hinside : context.base ≤ span.stop) {behind : Text}
    (htext : context.textAt span.stop
      = (linkTail (Percent.encode destination) title).drop 1 ++ behind)
    (refers : Bool) (rest : List Token) :
    ∃ stop, (closingBracket context refers span rest state).1.nodes
      = .group (.link bracket.image .direct (Percent.encode destination) (title.getD []))
          (.upTo bracket.span.start stop) state.nodes.reverse :: bracket.before := by
  refine ⟨span.stop + ((linkTail (Percent.encode destination) title).length - 1), ?_⟩
  simp only [closingBracket, hopened, hactive, Bool.not_true, Bool.false_eq_true, if_false,
    LinkTail.read?_linkTail hprintable hinside htext, LinkState.makeLink]

end Source

end Canonmark
