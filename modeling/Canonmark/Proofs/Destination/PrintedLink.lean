import Canonmark.Proofs.Destination.Found
import Canonmark.Proofs.Destination.LinkTail

/-!
# Printed links have no spaced destination

The search for destinations with white space finds the end of a printed link where the printer put
it, as long as the parentheses of the title are balanced, and takes all in front of the title for
the destination, as long as there is one. A coded destination has no white space but such as is
not ASCII, so that links are left alone when they have been printed.
-/

namespace Canonmark

open Printer

namespace Percent

theorem mem_encodeFrom {unmatched : List Nat} {position : Nat} {text : Text} {c : Char}
    (h : c ∈ encodeFrom unmatched position text) : c ∈ text ∨ c.toNat < 128 := by
  have hdigit : ∀ n < 16, (hexDigit n).toNat < 128 := by decide
  induction text generalizing position with
  | nil => cases h
  | cons d rest ih =>
      rcases List.mem_append.mp h with h | h
      · split at h
        · next hreserved =>
            have hsmall := (isReserved_spec hreserved).1
            simp only [triplet, List.mem_cons, List.not_mem_nil, or_false] at h
            rcases h with rfl | rfl | rfl
            · exact .inr (by decide)
            · exact .inr (hdigit _ (by omega))
            · exact .inr (hdigit _ (by omega))
        · exact .inl (List.mem_singleton.mp h ▸ List.mem_cons_self)
      · exact (ih h).imp_left (List.mem_cons_of_mem d)

end Percent

namespace SpacedDestination

variable {nesting : Nat} {text behind : Text}

namespace Passed

theorem balanced_cons {c : Char} {rest written : Text} (hbackslash : c ≠ '\\') (hnewline : c ≠ '\n')
    (hbalanced : Parentheses.balanced nesting (c :: rest) = true)
    (hlater : ∀ {nesting : Nat}, Parentheses.balanced nesting rest = true →
      Passed nesting written 0) : Passed nesting (c :: written) 0 := by
  by_cases hopens : c = '('
  · subst hopens
    exact .opens (hlater (by simpa [Parentheses.balanced] using hbalanced))
  · by_cases hcloses : c = ')'
    · subst hcloses
      simp only [Parentheses.balanced, if_neg hopens, if_pos, Bool.and_eq_true,
        decide_eq_true_eq] at hbalanced
      obtain ⟨nesting, rfl⟩ := Nat.exists_eq_succ_of_ne_zero (Nat.ne_of_gt hbalanced.1)
      exact .closes (hlater hbalanced.2)
    · refine .plain ⟨hbackslash, hopens, hcloses, hnewline⟩ (hlater ?_)
      simpa [Parentheses.balanced, hopens, hcloses] using hbalanced

theorem backslash {d : Char} {rest : Text} {depth deeper : Nat}
    (hletter : Ascii.isPunctuation d = false) (h : Passed depth (d :: rest) deeper) :
    Passed depth ('\\' :: d :: rest) deeper := by
  cases h with
  | escape => exact absurd hletter (by decide)
  | opens => exact absurd hletter (by decide)
  | closes => exact absurd hletter (by decide)
  | plain _ hlater => exact .escape d hlater

theorem escapeDestination (hline : '\n' ∉ text)
    (hbalanced : Parentheses.balanced nesting text = true) :
    Passed nesting (Printer.escapeDestination text) 0 := by
  induction text generalizing nesting with
  | nil =>
      obtain rfl : nesting = 0 := by simpa [Parentheses.balanced] using hbalanced
      exact .nil 0
  | cons c rest ih =>
      simp only [List.mem_cons, not_or] at hline
      have ih {nesting : Nat} := @ih nesting hline.2
      by_cases hbackslash : c = '\\'
      · subst hbackslash
        have hpassed := ih (by simpa [Parentheses.balanced] using hbalanced)
        obtain hdoubled | ⟨d, tail, hletter, hsame, hsingle⟩ := escapeDestination_backslash rest
        · rw [hdoubled]
          exact .escape '\\' hpassed
        · rw [hsingle]
          rw [hsame] at hpassed
          exact hpassed.backslash hletter
      · rw [escapeDestination_cons hbackslash]
        exact balanced_cons hbackslash (Ne.symm hline.1) hbalanced ih

theorem escapeTitle (hline : '\n' ∉ text) (hbalanced : Parentheses.balanced nesting text = true) :
    Passed nesting (Printer.escapeTitle text) 0 := by
  induction text generalizing nesting with
  | nil =>
      obtain rfl : nesting = 0 := by simpa [Parentheses.balanced] using hbalanced
      exact .nil 0
  | cons c rest ih =>
      simp only [List.mem_cons, not_or] at hline
      have ih {nesting : Nat} := @ih nesting hline.2
      rw [escapeTitle_cons]
      split
      · next hescaped =>
          have hsame : Parentheses.balanced nesting rest = true := by
            rcases hescaped with rfl | rfl <;> simpa [Parentheses.balanced] using hbalanced
          exact .escape c (ih hsame)
      · next hplain =>
          exact balanced_cons (fun h => hplain (.inl h)) (Ne.symm hline.1) hbalanced ih

theorem encode (destination : Text) :
    Passed 0 (Printer.escapeDestination (Percent.encode destination)) 0 :=
  escapeDestination
    (fun hmem => absurd (Percent.isPlain_of_mem_encodeFrom hmem) (by decide))
    (Percent.balanced_encode destination)

end Passed

theorem behindTitle?_cons {close c : Char} (hbackslash : c ≠ '\\') (rest : Text) :
    behindTitle? close (c :: rest) = if c = close then some rest else behindTitle? close rest := by
  rw [behindTitle?.eq_4]
  · rintro rfl
    exact absurd rfl hbackslash
  · rintro _ _ rfl
    exact absurd rfl hbackslash

theorem behindTitle?_escapeTitle (hline : '\n' ∉ text) :
    behindTitle? '"' (escapeTitle text ++ '"' :: behind) = some behind := by
  induction text with
  | nil => rfl
  | cons c rest ih =>
      simp only [List.mem_cons, not_or] at hline
      rw [escapeTitle_cons]
      split
      · simp only [List.cons_append, List.nil_append]
        rw [behindTitle?, if_neg (Ne.symm hline.1)]
        exact ih hline.2
      · next hplain =>
          rw [List.cons_append, List.cons_append, List.nil_append,
            behindTitle?_cons fun h => hplain (.inl h), if_neg fun h => hplain (.inr h)]
          exact ih hline.2

def printedTitle : Option Text → Text
  | some title => ' ' :: '"' :: (escapeTitle title ++ ['"'])
  | none => []

theorem isTail_printedTitle {title : Option Text} (hline : ∀ text ∈ title, '\n' ∉ text) :
    isTail (printedTitle title) = true := by
  cases title with
  | none => rfl
  | some text =>
      have hspace : Unicode.isWhitespace ' ' = true := rfl
      have hquote : Unicode.isWhitespace '"' = false := rfl
      simp [printedTitle, isTail, isTitle, hspace, hquote, behindTitle?_escapeTitle
        (hline text rfl), Unicode.isBlank]

theorem beforeTail_append {destination tail : Text}
    (hsolid : ∀ c ∈ destination, Unicode.isWhitespace c = false) (h : isTail tail = true) :
    beforeTail (destination ++ tail) = destination := by
  induction destination with
  | nil => cases tail <;> simp [beforeTail, h]
  | cons c rest ih =>
      obtain ⟨hvisible, hothers⟩ := List.forall_mem_cons.mp hsolid
      have hinside : isTail (c :: (rest ++ tail)) = false := by simp [isTail, hvisible]
      rw [List.cons_append, beforeTail, hinside, ih hothers]
      rfl

theorem find?_parts {gap destination tail : Text}
    (hblank : ∀ c ∈ gap, Unicode.isWhitespace c = true)
    (hsolid : ∀ c ∈ destination, Unicode.isWhitespace c = false) (hends : isTail tail = true)
    (htitled : destination = [] → tail = []) : find? (gap ++ (destination ++ tail)) = none := by
  have hfront : (gap ++ (destination ++ tail)).dropWhile Unicode.isWhitespace
      = destination ++ tail := by
    rw [List.dropWhile_append_of_pos hblank]
    cases destination with
    | nil => rw [htitled rfl]; rfl
    | cons c rest => simp [hsolid c List.mem_cons_self]
  have hnone : destination.any Unicode.isWhitespace = false := by simpa using hsolid
  rw [find?, hfront, beforeTail_append hsolid hends, hnone]
  simp

theorem find?_printed {destination : Text} {title : Option Text}
    (hsolid : ∀ c ∈ destination, Unicode.isWhitespace c = false)
    (hline : ∀ text ∈ title, '\n' ∉ text) (htitled : destination = [] → title = none) :
    find? (destination ++ printedTitle title) = none := by
  refine @find?_parts [] _ _ (by simp) hsolid (isTail_printedTitle hline) fun hempty => ?_
  rw [htitled hempty]
  rfl

def isMark (c : Char) : Bool := c = '\\' || c = '\x60' || c = '[' || c = ']' || c = '\n'

theorem onLine_plain (hplain : ∀ c ∈ text, isMark c = false) (fuel depth position : Nat)
    (rest : Text) :
    onLine (text.length + fuel) depth position (text ++ rest)
      = onLine fuel depth (position + text.length) rest := by
  induction text generalizing position with
  | nil => simp
  | cons c text ih =>
      obtain ⟨hhere, hothers⟩ := List.forall_mem_cons.mp hplain
      simp only [isMark, Bool.or_eq_false_iff, decide_eq_false_iff_not] at hhere
      obtain ⟨⟨⟨⟨hbackslash, hbacktick⟩, hopens⟩, hcloses⟩, -⟩ := hhere
      rw [List.length_cons, Nat.add_right_comm, List.cons_append,
        onLine_other ⟨hbackslash, hbacktick, hopens⟩ fun h => absurd h hcloses, ih hothers,
        Nat.add_assoc, Nat.add_comm 1]

theorem onLine_link {inner : Text} (hplain : ∀ c ∈ text, isMark c = false)
    (hpassed : Passed 0 inner 0) (hnone : find? inner = none) (fuel depth position : Nat) :
    onLine (text.length + fuel + 2) depth position ('[' :: (text ++ ']' :: '(' :: (inner ++ [')'])))
      = [] := by
  rw [show text.length + fuel + 2 = text.length + (fuel + 1) + 1 by omega, onLine_opens,
    onLine_plain hplain, onLine_closed (Nat.succ_pos depth) hpassed hnone, onLine_nil]

theorem isWhitespace_eq_false {c : Char} (hvisible : ' ' < c)
    (hascii : Unicode.isWhitespace c = true → c.toNat < 128) : Unicode.isWhitespace c = false := by
  have hvisible : 32 < c.toNat := UInt32.lt_iff_toNat_lt.mp (Char.lt_def.mp hvisible)
  by_contra hspace
  have hascii := hascii (by simpa using hspace)
  refine hspace ?_
  simp only [Unicode.isWhitespace, Bool.or_eq_false_iff, Bool.and_eq_false_iff,
    decide_eq_false_iff_not]
  omega

theorem isWhitespace_encode {destination : Text}
    (hsolid : ∀ c ∈ destination, Unicode.isWhitespace c = true → c.toNat < 128) :
    ∀ c ∈ Percent.encode destination, Unicode.isWhitespace c = false := by
  intro c hmem
  refine isWhitespace_eq_false (Percent.lt_of_isPlain (Percent.isPlain_of_mem_encodeFrom hmem)) ?_
  exact fun hspace => (Percent.mem_encodeFrom hmem).elim (hsolid c · hspace) id

theorem spans_line {line : Text} (hnewline : '\n' ∉ line) (h : FencedLines.opening? line = none) :
    spans line = onLine line.length 0 0 line := by
  cases line with
  | nil => rfl
  | cons c rest =>
      rw [spans, Text.lineSegments_line (by simp) hnewline, onLines_cons]
      simp [FencedLines.step, h, onLines]

theorem opening?_bracket (image : Bool) (rest : Text) :
    FencedLines.opening? ((if image then ['!', '['] else ['[']) ++ rest) = none := by
  have hspace : Unicode.isWhitespace '[' = false ∧ Unicode.isWhitespace '!' = false := ⟨rfl, rfl⟩
  cases image <;>
    simp [FencedLines.opening?, FencedLines.content, FencedLines.stripQuotes, hspace]

theorem inline_link (image : Bool) (text destination : Text) (title : Option Text) :
    Printer.inline (.node (.link image destination title) [.leaf (.text text)]) =
      (if image then ['!', '['] else ['[']) ++
        (text ++ ']' :: '(' :: (escapeDestination destination ++ printedTitle title ++ [')'])) := by
  have htail : linkTail destination title
      = ']' :: '(' :: (escapeDestination destination ++ printedTitle title ++ [')']) := by
    cases title <;> simp [linkTail, printedTitle]
  have hleaf : Printer.leaf (.text text) = text := rfl
  simp only [Printer.inline, Printer.inlines, Printer.fences, hleaf, htail, List.append_nil,
    List.append_assoc]

theorem newline_not_mem_printedTitle {title : Option Text} (hline : ∀ text ∈ title, '\n' ∉ text) :
    '\n' ∉ printedTitle title := by
  cases title with
  | none => simp [printedTitle]
  | some title =>
      have hline := hline title rfl
      simp only [printedTitle, escapeTitle, List.mem_cons, List.mem_append, List.mem_flatMap,
        List.not_mem_nil, or_false, not_or, not_exists, not_and]
      refine ⟨by decide, by decide, fun c hmem => ?_, by decide⟩
      have hother : '\n' ≠ c := fun h => hline (h ▸ hmem)
      split <;> simp [hother]

theorem passed_printed (destination : Text) {title : Option Text}
    (hline : ∀ text ∈ title, '\n' ∉ text)
    (hbalanced : ∀ text ∈ title, Parentheses.balanced 0 text = true) :
    Passed 0 (escapeDestination (Percent.encode destination) ++ printedTitle title) 0 := by
  refine (Passed.encode destination).append ?_
  cases title with
  | none => exact .nil 0
  | some title =>
      have hquoted := Passed.escapeTitle (hline title rfl) (hbalanced title rfl)
      have hclosed : Passed 0 ['"'] 0 := .plain (by decide) (.nil 0)
      exact .plain (by decide) (.plain (by decide) (hquoted.append hclosed))

theorem find?_link {destination : Text} {title : Option Text}
    (hsolid : ∀ c ∈ destination, Unicode.isWhitespace c = true → c.toNat < 128)
    (hline : ∀ text ∈ title, '\n' ∉ text) (htitled : destination = [] → title = none) :
    find? (escapeDestination (Percent.encode destination) ++ printedTitle title) = none := by
  refine find?_printed (fun c hmem => isWhitespace_encode hsolid c (mem_escapeDestination hmem))
    hline
    fun hempty => htitled (Source.LinkTail.encode_eq_nil (List.head?_eq_none_iff.mp ?_))
  rw [← head?_escapeDestination, hempty]
  rfl

theorem newline_not_mem_link {destination : Text} {title : Option Text}
    (hline : ∀ text ∈ title, '\n' ∉ text) :
    '\n' ∉ escapeDestination (Percent.encode destination) ++ printedTitle title := by
  refine fun hmem => (List.mem_append.mp hmem).elim (fun hmem => ?_)
    (newline_not_mem_printedTitle hline)
  exact absurd (Percent.isPlain_of_mem_encodeFrom (mem_escapeDestination hmem)) (by decide)

theorem spans_link (image : Bool) {inner : Text} (hplain : ∀ c ∈ text, isMark c = false)
    (hnewline : '\n' ∉ inner) (hpassed : Passed 0 inner 0)
    (hnone : find? inner = none) :
    spans ((if image then ['!', '['] else ['[']) ++ (text ++ ']' :: '(' :: (inner ++ [')']))) =
      [] := by
  have hcalm : '\n' ∉ text := fun hmem => absurd (hplain '\n' hmem) (by decide)
  have hsearch (depth position : Nat) :=
    onLine_link hplain hpassed hnone (inner.length + 2) depth position
  rw [spans_line _ (opening?_bracket _ _)]
  · cases image with
    | false => simpa [Nat.add_assoc, Nat.add_left_comm] using hsearch 0 0
    | true => simpa [Nat.add_assoc, Nat.add_left_comm, onLine] using hsearch 0 1
  · cases image <;> simp [hcalm, hnewline]

/--
A printed link is left alone: the search ends where the link does, and finds no white space in its
destination. White space beyond ASCII is not coded, a parenthesis of the title may have no partner,
and a title may stand where the destination is looked for, so that all of these are ruled out.
-/
theorem wrap?_link (image : Bool) {destination : Text} {title : Option Text}
    (hplain : ∀ c ∈ text, isMark c = false)
    (hsolid : ∀ c ∈ destination, Unicode.isWhitespace c = true → c.toNat < 128)
    (hline : ∀ text ∈ title, '\n' ∉ text)
    (hbalanced : ∀ text ∈ title, Parentheses.balanced 0 text = true)
    (htitled : destination = [] → title = none) :
    wrap? (Printer.inline (.node (.link image (Percent.encode destination) title)
      [.leaf (.text text)])) = none := by
  rw [wrap?, inline_link, spans_link image hplain (newline_not_mem_link hline)
    (passed_printed destination hline hbalanced) (find?_link hsolid hline htitled)]

end SpacedDestination

end Canonmark
