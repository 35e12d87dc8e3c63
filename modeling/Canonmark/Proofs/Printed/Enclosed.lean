import Canonmark.Document.Builder
import Canonmark.Proofs.Printed.Lines
import Canonmark.Proofs.Text.Basic

/-!
# Containers put on and taken off

The printer puts the markers of containers in front of the lines of a text, from the innermost
container out. The builder takes them off, from the outermost in, and reads at the front of an
item how far its content is indented. Each undoes the other, for containers in any nesting.
-/

namespace Canonmark

def ListKind.Known : ListKind → Prop
  | .bullet c => Source.isBullet c = true
  | .ordered _ delimiter => delimiter = '.' ∨ delimiter = ')'

def ListKind.number? : ListKind → Option Nat
  | .bullet _ => none
  | .ordered start _ => some start

namespace Printed

open Text (splitLines)

theorem isMarker_itemMarker {kind : ListKind} (hknown : kind.Known) (index : Nat) :
    IsMarker (Printer.itemMarker kind index) := by
  cases kind with
  | bullet c => exact .bullet hknown
  | ordered start delimiter => exact .ordered (start + index) hknown

/-- What holds a text: a quote, or the item of a list at an index. -/
inductive Holder where
  | quote
  | item (kind : ListKind) (index : Nat) (hknown : kind.Known)

namespace Holder

def print : Holder → Text → Text
  | .quote, body => Printer.quoteLines body
  | .item kind index _, body => Printer.itemLines (Printer.itemMarker kind index) body

def opening : Holder → Text
  | .quote => Printer.quoteMarker
  | .item kind index _ => Printer.itemMarker kind index ++ [' ']

/-- Columns by which the printer indents the content of an item. -/
def indent (kind : ListKind) (index : Nat) : Nat :=
  Text.utf8Size (Printer.itemMarker kind index) + 1

def enclosure : Holder → Enclosure
  | .quote => .quote
  | .item kind index _ => .item (indent kind index)

def level : Holder → Level
  | .quote => .quote
  | .item kind index _ => .item (listMarker kind) (indent kind index)

/-- Prints from the innermost holder out; the outermost comes first. -/
def printAll (holders : List Holder) (text : Text) : Text := holders.foldr print text

def openings (holders : List Holder) : Text := holders.flatMap opening

end Holder

open Holder (printAll openings)

theorem printAll_append (outer inner : List Holder) (text : Text) :
    printAll (outer ++ inner) text = printAll outer (printAll inner text) := List.foldr_append

theorem tail_splitLines_print (holder : Holder) (body : Text) :
    (splitLines (holder.print body)).tail = (splitLines body).tail.map holder.level.mark := by
  cases holder with
  | quote =>
      rw [Holder.print, splitLines_quoteLines, List.map_tail]
      rfl
  | item kind index hknown =>
      have hmarker := isMarker_itemMarker hknown index
      by_cases hnone : body = []
      · subst hnone
        simp [Holder.print, Printer.itemLines, Text.splitLines_line hmarker.oneLine.1, splitLines]
      · obtain ⟨line, lines, hsplit⟩ := List.exists_cons_of_ne_nil (Text.splitLines_ne_nil body)
        rw [Holder.print, splitLines_itemLines hmarker hnone, hsplit, hang, ← hmarker.utf8Size]
        rfl

theorem tail_splitLines_printAll (holders : List Holder) (text : Text) :
    (splitLines (printAll holders text)).tail =
      (splitLines text).tail.map (carry (holders.map (·.level))) := by
  induction holders with
  | nil =>
      rw [List.map_nil, show carry [] = id from rfl, List.map_id]
      rfl
  | cons holder inner ih =>
      have hfirst := tail_splitLines_print holder (printAll inner text)
      rw [ih, List.map_map] at hfirst
      exact hfirst

theorem strip_mark (holder : Holder) (line : Text) :
    holder.enclosure.strip (holder.level.mark line) = line := by
  cases holder with
  | quote => rfl
  | item kind index hknown =>
      have hspaces : ∀ c ∈ List.replicate (Holder.indent kind index) ' ', decide (c = ' ') = true :=
        fun c hmem => decide_eq_true (List.eq_of_mem_replicate hmem)
      by_cases hnone : line = []
      · subst hnone
        simp [Holder.enclosure, Holder.level, Level.mark, hung, Enclosure.strip]
      · have hfilled : line.isEmpty = false := by simpa using hnone
        rw [Holder.enclosure, Holder.level, Level.mark, hung, hfilled, if_neg (by decide),
          Enclosure.strip, List.take_left' List.length_replicate,
          List.takeWhile_eq_self_iff.mpr hspaces,
          List.drop_left]

theorem stripAll_carry (holders : List Holder) (line : Text) :
    Enclosure.stripAll (holders.map (·.enclosure)) (carry (holders.map (·.level)) line) = line := by
  induction holders with
  | nil => rfl
  | cons holder inner ih =>
      rw [List.map_cons, List.map_cons, carry_cons, Enclosure.stripAll, List.foldl_cons, strip_mark]
      exact ih

theorem exists_splitLines_front {first : Text} (hone : '\n' ∉ first) (behind : Text) :
    ∃ line lines, splitLines (first ++ behind) = (first ++ line) :: lines := by
  induction first with
  | nil =>
      obtain ⟨line, lines, hsplit⟩ := List.exists_cons_of_ne_nil (Text.splitLines_ne_nil behind)
      exact ⟨line, lines, hsplit⟩
  | cons c rest ih =>
      simp only [List.mem_cons, not_or] at hone
      obtain ⟨line, lines, hsplit⟩ := ih hone.2
      exact ⟨line, lines, Text.splitLines_cons (Ne.symm hone.1) hsplit⟩

theorem exists_joinLines (line : Text) (lines : List Text) :
    ∃ later, Text.joinLines (line :: lines) = line ++ later := by
  cases lines with
  | nil => exact ⟨[], (List.append_nil line).symm⟩
  | cons next lines => exact ⟨_, List.append_assoc _ _ _⟩

theorem exists_markLines {first : Text} (hsome : first ≠ []) (hone : '\n' ∉ first)
    (behind marker rest : Text) :
    ∃ later, Printer.markLines (first ++ behind) marker rest = marker ++ (first ++ later) := by
  obtain ⟨line, lines, hsplit⟩ := exists_splitLines_front hone behind
  have hfilled : (first ++ line).isEmpty = false := by simp [hsome]
  obtain ⟨later, hjoined⟩ := exists_joinLines (marker ++ (first ++ line))
    (lines.map fun line => if line.isEmpty && Unicode.isBlank rest then [] else rest ++ line)
  refine ⟨line ++ later, ?_⟩
  simp only [Printer.markLines, hsplit, hfilled, Bool.false_and, Bool.false_eq_true, if_false]
  rw [hjoined]
  simp only [List.append_assoc]

theorem exists_print (holder : Holder) {first : Text} (hsome : first ≠ []) (hone : '\n' ∉ first)
    (behind : Text) :
    ∃ later, holder.print (first ++ behind) = holder.opening ++ (first ++ later) := by
  cases holder with
  | quote => exact exists_markLines hsome hone behind _ _
  | item kind index hknown =>
      have hfilled : (first ++ behind).isEmpty = false := by simp [hsome]
      rw [Holder.print, Printer.itemLines, hfilled, if_neg (by decide)]
      exact exists_markLines hsome hone behind _ _

theorem feed_opening (holder : Holder) : '\n' ∉ holder.opening := by
  cases holder with
  | quote => decide
  | item kind index hknown => simp [Holder.opening, (isMarker_itemMarker hknown index).oneLine.1]

theorem exists_printAll (holders : List Holder) {first : Text} (hsome : first ≠ [])
    (hone : '\n' ∉ first) (behind : Text) :
    ∃ later, printAll holders (first ++ behind) = openings holders ++ (first ++ later) := by
  induction holders with
  | nil => exact ⟨behind, rfl⟩
  | cons holder inner ih =>
      obtain ⟨later, hprinted⟩ := ih
      have hfeeds : '\n' ∉ openings inner ++ first := by
        simp only [List.mem_append, openings, List.mem_flatMap, not_or, not_exists, not_and]
        exact ⟨fun holder _ => feed_opening holder, hone⟩
      obtain ⟨last, houter⟩ := exists_print holder (List.append_ne_nil_of_right_ne_nil _ hsome)
        hfeeds later
      refine ⟨last, ?_⟩
      calc printAll (holder :: inner) (first ++ behind)
        _ = holder.print (openings inner ++ first ++ later) := by
              rw [List.append_assoc, ← hprinted]
              rfl
        _ = openings (holder :: inner) ++ (first ++ last) := by
              rw [houter]
              simp [openings]

theorem readItemMarker_itemMarker {kind : ListKind} (hknown : kind.Known) (index : Nat) {c : Char}
    (hspace : c ≠ ' ') (hfeed : c ≠ '\n') (rest : Text) :
    readItemMarker kind.number? (Printer.itemMarker kind index ++ ' ' :: c :: rest) =
      (kind, Holder.indent kind index) := by
  have hmarker := isMarker_itemMarker hknown index
  obtain ⟨d, more, hshape, hchar⟩ := hmarker.exists_cons
  have hvisible : d ≠ ' ' := by
    rintro rfl
    exact absurd hchar (by decide)
  have hfront : (Printer.itemMarker kind index ++ ' ' :: c :: rest).dropWhile (· = ' ') =
      Printer.itemMarker kind index ++ ' ' :: c :: rest := by
    rw [hshape, List.cons_append, List.dropWhile_cons_of_neg (by simpa using hvisible)]
  have hone : ((' ' :: c :: rest).takeWhile (· = ' ')).length = 1 := by
    simp [hspace]
  rw [Holder.indent, hmarker.utf8Size]
  unfold readItemMarker
  rw [hfront]
  cases kind with
  | bullet bullet =>
      have hknown : Source.isBullet bullet = true := hknown
      simp [ListKind.number?, Printer.itemMarker, hknown, hspace, hfeed]
  | ordered start delimiter =>
      have hdigit : Ascii.isDigit delimiter = false := by rcases hknown with rfl | rfl <;> rfl
      have hshown : (if delimiter = ')' then ')' else '.') = delimiter := by
        rcases hknown with rfl | rfl <;> rfl
      have hdigits := Ascii.takeWhile_ofNat (start + index) hdigit (' ' :: c :: rest)
      have hbehind := Ascii.drop_ofNat (start + index) delimiter (' ' :: c :: rest)
      simp only [ListKind.number?, Printer.itemMarker, List.append_assoc, List.singleton_append,
        hdigits, List.drop_left, hbehind, List.head?_cons, Option.some.injEq, hshown, hone]
      simp [hfeed]

/--
The builder takes off all lines behind the first what the printer put on them, whatever holds the
text. At the front of an item, wherever it stands, it reads the kind of the list and the
indentation that the printer used.
-/
theorem enclosures_printAll (outer inner : List Holder) (text : Text) :
    (splitLines (printAll outer text)).tail.map
        (Enclosure.stripAll (outer.map (·.enclosure))) = (splitLines text).tail ∧
      ∀ (kind : ListKind) (index : Nat) (hknown : kind.Known) (c : Char) (rest behind : Text),
        printAll inner text = c :: rest → c ≠ ' ' → c ≠ '\n' →
          readItemMarker kind.number?
            ((printAll (outer ++ .item kind index hknown :: inner) text ++ behind).drop
              (openings outer).length) =
            (kind, Holder.indent kind index) := by
  constructor
  · have hsame :
        (Enclosure.stripAll (outer.map (·.enclosure)) ∘ carry (outer.map (·.level))) = id :=
      funext fun line => stripAll_carry outer line
    rw [tail_splitLines_printAll, List.map_map, hsame, List.map_id]
  · intro kind index hknown c rest behind hbody hspace hfeed
    obtain ⟨later, hitem⟩ := exists_printAll (outer ++ [.item kind index hknown])
      (List.cons_ne_nil c []) (by simpa using Ne.symm hfeed) rest
    have hwhole : printAll (outer ++ .item kind index hknown :: inner) text =
        openings outer ++ (Printer.itemMarker kind index ++ ' ' :: c :: later) := by
      rw [List.singleton_append, ← hbody, ← printAll_append, List.append_assoc,
        List.singleton_append] at hitem
      rw [hitem]
      simp [openings, Holder.opening]
    rw [hwhole, List.append_assoc, List.drop_left, List.append_assoc]
    exact readItemMarker_itemMarker hknown index hspace hfeed _

/-- A quote in an item in the tenth item of a list, which is in a quote. -/
theorem enclosures_printAll_nested :
    let outer : List Holder := [.quote, .item (.ordered 9 ')') 1 (.inr rfl)]
    let text := "a\n\n  b".toList
    printAll [.quote] text = '>' :: " a\n> \n>   b".toList ∧
      readItemMarker none ((printAll (outer ++ .item (.bullet '+') 0 rfl :: [.quote]) text ++
        "\n".toList).drop (openings outer).length) = (.bullet '+', 2) := by
  intro outer text
  have hbody : printAll [.quote] text = '>' :: " a\n> \n>   b".toList := by decide
  obtain ⟨-, hmarker⟩ := enclosures_printAll outer [.quote] text
  exact ⟨hbody, hmarker (.bullet '+') 0 rfl '>' _ _ hbody (by decide) (by decide)⟩

end Printed

end Canonmark
