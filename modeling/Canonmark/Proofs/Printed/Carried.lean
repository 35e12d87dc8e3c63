import Canonmark.Source.Container

/-!
# Lines that containers carry

A container puts its marker in front of the lines of what it holds. A line that is carried by
containers continues all of them, and is what is left of it behind them.
-/

namespace Canonmark.Printed

open Source (Container LineHead)

/-- A quote, or an item of a list whose content hangs under its first line. -/
inductive Level where
  | quote
  | item (marker : Char) (width : Nat)
  deriving DecidableEq, Repr

def hung (width : Nat) (line : Text) : Text :=
  if line.isEmpty then [] else List.replicate width ' ' ++ line

def Level.mark : Level → Text → Text
  | .quote, line => '>' :: ' ' :: line
  | .item _ width, line => hung width line

def carry (levels : List Level) (line : Text) : Text := levels.foldr Level.mark line

@[simp] theorem carry_nil (line : Text) : carry [] line = line := rfl

theorem carry_cons (level : Level) (levels : List Level) (line : Text) :
    carry (level :: levels) line = level.mark (carry levels line) := rfl

def below (levels : List Level) (lines : List Text) : Text :=
  lines.flatMap fun line => carry levels line ++ ['\n']

@[simp] theorem below_nil (levels : List Level) : below levels [] = [] := rfl

theorem below_cons (levels : List Level) (line : Text) (lines : List Text) :
    below levels (line :: lines) = carry levels line ++ '\n' :: below levels lines := by
  simp [below]

theorem below_append (levels : List Level) (first second : List Text) :
    below levels (first ++ second) = below levels first ++ below levels second := by
  simp [below]

theorem below_map (levels : List Level) (level : Level) (lines : List Text) :
    below levels (lines.map level.mark) = below (levels ++ [level]) lines := by
  simp [below, List.flatMap_map, carry]

/-- Open containers that are of these levels, outermost first. -/
inductive Fits : List Level → List Container → Prop
  | nil : Fits [] []
  | quote {levels : List Level} {containers : List Container} :
      Fits levels containers → Fits (.quote :: levels) (.quote :: containers)
  | item (tight : Bool) (marker : Char) (number : Nat) {width : Nat} (hwide : 0 < width)
      {levels : List Level} {containers : List Container} : Fits levels containers →
        Fits (.item marker width :: levels) (.list tight marker number :: .item width :: containers)

def depth : List Level → Nat
  | [] => 0
  | .quote :: levels => depth levels + 1
  | .item _ _ :: levels => depth levels + 2

theorem depth_append (outer inner : List Level) :
    depth (outer ++ inner) = depth outer + depth inner := by
  induction outer with
  | nil => simp [depth]
  | cons level outer ih =>
      cases level with
      | quote =>
          simp only [List.cons_append, depth, ih]
          omega
      | item marker width =>
          simp only [List.cons_append, depth, ih]
          omega

theorem Fits.length {levels : List Level} {containers : List Container}
    (h : Fits levels containers) : containers.length = depth levels := by
  induction h with
  | nil => rfl
  | quote _ ih => simp [depth, ih]
  | item _ _ _ _ _ ih => simp [depth, ih]

theorem Fits.head_quote {levels : List Level} {containers : List Container}
    (h : Fits levels containers) :
    levels.head? = some .quote ↔ containers.head? = some .quote := by
  cases h with
  | nil => simp
  | quote h => simp
  | item _ _ _ _ h => simp

theorem Fits.append {outer inner : List Level} {containers more : List Container}
    (h : Fits outer containers) (h' : Fits inner more) :
    Fits (outer ++ inner) (containers ++ more) := by
  induction h with
  | nil => exact h'
  | quote _ ih => exact .quote ih
  | item tight marker number hwide _ ih => exact .item tight marker number hwide ih

theorem takeColumns_spaces (taken stop width : Nat) (text : Text) :
    LineHead.takeColumns taken stop width (List.replicate width ' ' ++ text)
      = (0, ⟨text, taken + width, stop, 0⟩) := by
  induction width generalizing taken with
  | zero => cases text <;> rfl
  | succ width ih =>
      rw [List.replicate_succ, List.cons_append, LineHead.takeColumns, if_neg (by omega),
        if_pos rfl, Nat.add_sub_cancel, ih]
      simp [Nat.add_comm, Nat.add_left_comm]

theorem takeColumns_front {text : Text} (h : text.head? ≠ some ' ' ∧ text.head? ≠ some '\t')
    (taken stop columns : Nat) :
    LineHead.takeColumns taken stop columns text = (columns, ⟨text, taken, stop, 0⟩) := by
  cases text with
  | nil => rfl
  | cons c rest =>
      have hspace : c ≠ ' ' := fun hsame => h.1 (hsame ▸ rfl)
      have htab : c ≠ '\t' := fun hsame => h.2 (hsame ▸ rfl)
      rw [LineHead.takeColumns]
      by_cases hnone : columns = 0
      · rw [if_pos hnone, hnone]
      · rw [if_neg hnone, if_neg hspace, if_neg htab]

def headAt (taken : Nat) (text : Text) : LineHead := ⟨text, taken, 0, 0⟩

theorem start_eq (text : Text) : LineHead.start text = headAt 0 text := rfl

theorem takeMissing_zero (taken : Nat) (text : Text) :
    (headAt taken text).takeMissing 0 = (0, headAt taken text) := rfl

theorem takeMissing_succ (taken columns : Nat) (text : Text) :
    (headAt taken text).takeMissing (columns + 1)
      = LineHead.takeColumns taken 0 (columns + 1) text := rfl

theorem takeMissing_headAt {text : Text}
    (h : text.head? ≠ some ' ' ∧ text.head? ≠ some '\t') (taken columns : Nat) :
    (headAt taken text).takeMissing columns = (columns, headAt taken text) := by
  cases columns with
  | zero => exact takeMissing_zero taken text
  | succ columns => exact takeColumns_front h taken 0 (columns + 1)

theorem takeExactly_headAt {text : Text}
    (h : text.head? ≠ some ' ' ∧ text.head? ≠ some '\t') (taken columns : Nat) :
    (headAt taken text).takeExactly columns = (decide (columns = 0), headAt taken text) := by
  rw [LineHead.takeExactly, takeMissing_headAt h]

theorem takeUpTo_headAt {text : Text}
    (h : text.head? ≠ some ' ' ∧ text.head? ≠ some '\t') (taken columns : Nat) :
    (headAt taken text).takeUpTo columns = (0, headAt taken text) := by
  rw [LineHead.takeUpTo, takeMissing_headAt h]
  simp

theorem takeExactly_spaces (taken width : Nat) (text : Text) :
    (headAt taken (List.replicate width ' ' ++ text)).takeExactly width
      = (true, headAt (taken + width) text) := by
  cases width with
  | zero => rfl
  | succ width =>
      rw [LineHead.takeExactly, takeMissing_succ, takeColumns_spaces]
      rfl

theorem continue?_quote (taken : Nat) (line : Text) :
    (headAt taken (Level.quote.mark line)).continue? .quote = some (headAt (taken + 2) line) := by
  have hfront : (headAt taken ('>' :: ' ' :: line)).takeExactly 3
      = (false, headAt taken ('>' :: ' ' :: line)) :=
    takeExactly_headAt (by simp) taken 3
  have hspace := takeExactly_spaces (taken + 1) 1 line
  simp only [Level.mark, LineHead.continue?, hfront]
  exact congrArg (fun found : Bool × LineHead => some found.2) hspace

theorem continue?_item (taken width : Nat) (line behind : Text) :
    (headAt taken (hung width line ++ '\n' :: behind)).continue? (.item width)
      = some (headAt (taken + (hung width line).length - line.length)
          (line ++ '\n' :: behind)) := by
  cases line with
  | nil =>
      have hfront := @takeExactly_headAt ('\n' :: behind) (by simp) taken width
      simp only [hung, List.isEmpty_nil, if_true, List.nil_append, LineHead.continue?, hfront]
      rw [if_pos (by simp [headAt, LineHead.atEol])]
      rfl
  | cons c rest =>
      have hspaces := takeExactly_spaces taken width (c :: rest ++ '\n' :: behind)
      simp only [hung, List.isEmpty_cons, Bool.false_eq_true, if_false, List.append_assoc,
        LineHead.continue?, hspaces, Bool.true_or, if_true]
      congr 2
      simp
      omega

theorem continuation_cons {container : Container} {head next : LineHead}
    (h : head.continue? container = some next) (containers : List Container) :
    LineHead.continuation (container :: containers) head
      = ((LineHead.continuation containers next).1 + 1,
          (LineHead.continuation containers next).2) := by
  rw [LineHead.continuation, h]

theorem continuation_of_none {container : Container} {head : LineHead}
    (h : head.continue? container = none) (containers : List Container) :
    LineHead.continuation (container :: containers) head = (0, head) := by
  rw [LineHead.continuation, h]

theorem exists_front_hung (width : Nat) (line : Text) :
    ∃ front, hung width line = front ++ line := by
  cases line with
  | nil => exact ⟨[], rfl⟩
  | cons c rest => exact ⟨List.replicate width ' ', rfl⟩

/-- A carried line continues the containers that carry it. -/
theorem continuation_carry {levels : List Level} {containers : List Container}
    (h : Fits levels containers) (more : List Container) (taken : Nat) (line behind : Text) :
    ∃ front, carry levels line = front ++ line ∧
      LineHead.continuation (containers ++ more)
          (headAt taken (carry levels line ++ '\n' :: behind))
        = (containers.length + (LineHead.continuation more
              (headAt (taken + front.length) (line ++ '\n' :: behind))).1,
            (LineHead.continuation more
              (headAt (taken + front.length) (line ++ '\n' :: behind))).2) := by
  -- Outermost level first; each one takes its marker from the front of the line.
  induction h generalizing taken with
  | nil => exact ⟨[], rfl, by simp⟩
  | @quote levels containers _ ih =>
      obtain ⟨front, hfront, ih⟩ := ih (taken + 2)
      refine ⟨'>' :: ' ' :: front, by rw [carry_cons, hfront]; rfl, ?_⟩
      have hstep : (headAt taken (carry (.quote :: levels) line ++ '\n' :: behind)).continue? .quote
          = some (headAt (taken + 2) (carry levels line ++ '\n' :: behind)) :=
        continue?_quote taken (carry levels line ++ '\n' :: behind)
      have hshift : taken + ('>' :: ' ' :: front).length = taken + 2 + front.length := by
        simp only [List.length_cons]
        omega
      rw [List.cons_append, continuation_cons hstep, ih, hshift, List.length_cons]
      simp only [Prod.mk.injEq, and_true]
      omega
  | @item tight marker number width hwide levels containers _ ih =>
      obtain ⟨outer, houter⟩ := exists_front_hung width (carry levels line)
      obtain ⟨front, hfront, ih⟩ := ih (taken + outer.length)
      refine ⟨outer ++ front, by rw [carry_cons, Level.mark, houter, hfront, List.append_assoc], ?_⟩
      have hinList : (headAt taken (carry (.item marker width :: levels) line ++ '\n' ::
          behind)).continue? (.list tight marker number)
            = some (headAt taken (carry (.item marker width :: levels) line ++ '\n' :: behind)) :=
            rfl
      have hstep := continue?_item taken width (carry levels line) behind
      have hsame : carry (.item marker width :: levels) line = hung width (carry levels line) := rfl
      have hshift : taken + (hung width (carry levels line)).length
          - (carry levels line).length = taken + outer.length := by
        rw [houter, List.length_append]
        omega
      rw [hshift, ← hsame] at hstep
      rw [List.cons_append, List.cons_append, continuation_cons hinList,
        continuation_cons hstep, ih, List.length_append, ← Nat.add_assoc]
      simp only [List.length_cons, Prod.mk.injEq, and_true]
      omega

theorem within_carry {levels : List Level} {containers : List Container}
    (h : Fits levels containers) (line behind : Text) :
    ∃ front, carry levels line = front ++ line ∧
      LineHead.within containers (carry levels line ++ '\n' :: behind)
        = (true, headAt front.length (line ++ '\n' :: behind)) := by
  obtain ⟨front, hfront, hcontinued⟩ := continuation_carry h [] 0 line behind
  refine ⟨front, hfront, ?_⟩
  rw [List.append_nil, LineHead.continuation, Nat.add_zero, Nat.zero_add] at hcontinued
  rw [LineHead.within, start_eq, hcontinued]
  simp

def Visible (line : Text) : Prop := ∃ c rest, line = c :: rest ∧ Ascii.isSpace c = false

theorem Visible.front {line : Text} (h : Visible line) (behind : Text) :
    (line ++ behind).head? ≠ some ' ' ∧ (line ++ behind).head? ≠ some '\t' := by
  obtain ⟨c, rest, rfl, hvisible⟩ := h
  refine ⟨?_, ?_⟩
  all_goals
    intro hsame
    obtain rfl := Option.some.inj hsame
    exact absurd hvisible (by decide)

theorem Visible.atEol {line : Text} (h : Visible line) (taken : Nat) (behind : Text) :
    (headAt taken (line ++ behind)).atEol = false := by
  obtain ⟨c, rest, rfl, hvisible⟩ := h
  simp only [Ascii.isSpace, Bool.or_eq_false_iff, decide_eq_false_iff_not] at hvisible
  simp [headAt, LineHead.atEol, hvisible.1.2, hvisible.2]

def keptOpen : List Container → List Container
  | .list tight marker number :: _ => [.list tight marker number]
  | _ => []

theorem continue?_item_none {width : Nat} (hwide : 0 < width) {line : Text}
    (hvisible : Visible line) (taken : Nat) (behind : Text) :
    (headAt taken (line ++ behind)).continue? (.item width) = none := by
  have hcolumns := takeExactly_headAt (hvisible.front behind) taken width
  simp only [LineHead.continue?, hcolumns, hvisible.atEol, Bool.or_false, decide_eq_true_eq]
  rw [if_neg (by omega)]

theorem quoteMarker?_none {text : Text} (h : text.head? ≠ some '>') (taken : Nat) :
    (headAt taken text).quoteMarker? = none := by
  unfold LineHead.quoteMarker?
  split
  · next rest hsame => exact absurd (congrArg List.head? hsame) h
  · rfl

theorem Visible.head? {line : Text} (h : Visible line) (behind : Text) :
    (line ++ behind).head? = line.head? := by
  obtain ⟨c, rest, rfl, -⟩ := h
  rfl

theorem continue?_quote_none {line : Text} (hvisible : Visible line)
    (hplain : line.head? ≠ some '>') (taken : Nat) (behind : Text) :
    (headAt taken (line ++ behind)).continue? .quote = none := by
  have hcolumns := takeExactly_headAt (hvisible.front behind) taken 3
  simp only [LineHead.continue?, hcolumns]
  exact quoteMarker?_none (hvisible.head? behind ▸ hplain) taken

/-- A line that starts a block ends all items that it is not carried by, and quotes. -/
theorem continuation_visible {levels : List Level} {containers : List Container}
    (h : Fits levels containers) {line : Text} (hvisible : Visible line)
    (hplain : levels.head? = some .quote → line.head? ≠ some '>') (taken : Nat) (behind : Text) :
    LineHead.continuation containers (headAt taken (line ++ behind))
        = ((keptOpen containers).length, headAt taken (line ++ behind)) ∧
      containers.take (keptOpen containers).length = keptOpen containers := by
  cases h with
  | nil => exact ⟨rfl, rfl⟩
  | quote h =>
      refine ⟨?_, rfl⟩
      rw [continuation_of_none (continue?_quote_none hvisible (hplain rfl) taken behind)]
      rfl
  | @item tight marker number width hwide levels containers h =>
      refine ⟨?_, rfl⟩
      have hinList : (headAt taken (line ++ behind)).continue? (.list tight marker number)
          = some (headAt taken (line ++ behind)) := rfl
      rw [continuation_cons hinList,
        continuation_of_none (continue?_item_none hwide hvisible taken behind)]
      rfl

theorem continue?_item_blank (width taken : Nat) (behind : Text) :
    (headAt taken ('\n' :: behind)).continue? (.item width)
      = some (headAt taken ('\n' :: behind)) := by
  have hcolumns := @takeExactly_headAt ('\n' :: behind) (by simp) taken width
  simp only [LineHead.continue?, hcolumns]
  rw [if_pos]
  simp [headAt, LineHead.atEol]

theorem continue?_quote_blank (taken : Nat) (behind : Text) :
    (headAt taken ('\n' :: behind)).continue? .quote = none := by
  have hcolumns := @takeExactly_headAt ('\n' :: behind) (by simp) taken 3
  simp only [LineHead.continue?, hcolumns]
  rfl

theorem continuation_blank {levels : List Level} {containers : List Container}
    (h : Fits levels containers) (taken : Nat) (behind : Text) :
    ∃ inner, Fits inner (containers.take
        (LineHead.continuation containers (headAt taken ('\n' :: behind))).1) ∧
      inner.head? ≠ some .quote ∧
      keptOpen (containers.take
          (LineHead.continuation containers (headAt taken ('\n' :: behind))).1)
        = keptOpen containers ∧
      (LineHead.continuation containers (headAt taken ('\n' :: behind))).2
        = headAt taken ('\n' :: behind) := by
  induction h with
  | nil => exact ⟨[], .nil, by simp, rfl, rfl⟩
  | quote h ih =>
      rw [continuation_of_none (continue?_quote_blank taken behind)]
      exact ⟨[], .nil, by simp, rfl, rfl⟩
  | @item tight marker number width hwide levels containers h ih =>
      obtain ⟨inner, hfits, -, -, hsame⟩ := ih
      have hinList : (headAt taken ('\n' :: behind)).continue? (.list tight marker number)
          = some (headAt taken ('\n' :: behind)) := rfl
      rw [continuation_cons hinList, continuation_cons (continue?_item_blank width taken behind)]
      exact ⟨.item marker width :: inner, .item tight marker number hwide hfits, by simp, rfl,
        hsame⟩

end Canonmark.Printed
