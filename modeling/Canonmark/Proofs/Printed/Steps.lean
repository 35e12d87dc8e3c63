import Canonmark.Proofs.Printed.Standing

/-!
# Steps between printed lines

At the start of a line a reader closes what the line does not continue, and goes on behind what
it does. A blank line is all of a step; any other line opens containers or starts a leaf.
-/

namespace Canonmark.Printed

open Source

/-- Blocks that are read one after the other, each of which takes some text. -/
inductive Steps : BlockReader → BlockReader → Prop
  | refl (reader : BlockReader) : Steps reader reader
  | step {reader last : BlockReader} :
      reader.readBlock.rest.length < reader.rest.length → Steps reader.readBlock last →
        Steps reader last

theorem Steps.trans {first second third : BlockReader} (h : Steps first second)
    (h' : Steps second third) : Steps first third := by
  induction h with
  | refl reader => exact h'
  | step hless _ ih => exact .step hless (ih h')

theorem Steps.readBlocks {reader last : BlockReader} (h : Steps reader last)
    (hdone : last.rest = []) {fuel : Nat} (henough : reader.rest.length < fuel) :
    BlockReader.readBlocks fuel reader = last := by
  induction h generalizing fuel with
  | refl reader =>
      cases fuel with
      | zero => rfl
      | succ fuel => rw [BlockReader.readBlocks, hdone, List.isEmpty_nil, if_pos rfl]
  | @step reader last hless _ ih =>
      cases fuel with
      | zero => exact absurd henough (Nat.not_lt_zero _)
      | succ fuel =>
          have hsome : reader.rest.isEmpty = false := by
            cases h : reader.rest with
            | nil => simp [h] at hless
            | cons c rest => rfl
          rw [BlockReader.readBlocks, hsome, if_neg (by decide)]
          exact ih hdone (by omega)

/-- What a reader does at a head behind the containers that the line continues. -/
def enter (fuel : Nat) (head : LineHead) (reader : BlockReader) : BlockReader :=
  match BlockReader.openContainers fuel head reader with
  | (reader, none) => reader
  | (reader, some head) =>
      match blankLine? head.rest with
      | some n => reader.blankLine (head.taken + n)
      | none => BlockReader.readLeaf head reader

variable {extensions : Extensions} {source : Text} {reader : BlockReader}

theorem readBlock_eq (reader : BlockReader) :
    reader.readBlock
      = enter (reader.rest.length + 1)
          (LineHead.continuation reader.containers (LineHead.start reader.rest)).2
          (reader.closeTo
            (LineHead.continuation reader.containers (LineHead.start reader.rest)).1
            reader.position) := by
  have hfuel : (reader.closeTo (LineHead.continuation reader.containers
        (LineHead.start reader.rest)).1 reader.position).rest.length + 1
      = reader.rest.length + 1 := by
    rw [(BlockReader.stays_closeTo _ _ reader).rest]
  rw [← hfuel]
  rfl

theorem openContainers_none {fuel taken : Nat} {text : Text}
    (hfront : text.head? ≠ some ' ' ∧ text.head? ≠ some '\t')
    (hfootnote : BlockReader.footnote? (headAt taken text) reader = none)
    (hitem : (headAt taken text).itemMarker? 0 = none) (hquote : text.head? ≠ some '>') :
    BlockReader.openContainers fuel (headAt taken text) reader
      = (reader, some (headAt taken text)) := by
  cases fuel with
  | zero => rfl
  | succ fuel =>
      simp only [BlockReader.openContainers, takeUpTo_headAt hfront, hfootnote, hitem,
        quoteMarker?_none hquote]
      rfl

theorem enter_blank (fuel taken : Nat) (behind : Text) (reader : BlockReader) :
    enter fuel (headAt taken ('\n' :: behind)) reader = reader.blankLine (taken + 1) := by
  have hopened : BlockReader.openContainers fuel (headAt taken ('\n' :: behind)) reader
      = (reader, some (headAt taken ('\n' :: behind))) := by
    refine openContainers_none (by simp) ?_ rfl (by simp)
    exact BlockReader.footnote?_eq_none _ _ fun _ rest => by simp [headAt]
  unfold enter
  rw [hopened]
  rfl

theorem blankLine_spec (h : Ready extensions source reader) (n : Nat) :
    Ready extensions source (reader.blankLine n) ∧
      (reader.blankLine n).containers = reader.containers ∧
      (reader.blankLine n).draft source = reader.draft source ∧
      (reader.blankLine n).rest = reader.rest.drop n := by
  have hadvanced : source.drop (reader.position + n) = reader.rest.drop n := by
    rw [← h.rest, List.drop_drop]
  unfold BlockReader.blankLine
  split
  · exact ⟨⟨h.extensions, hadvanced, h.emptyItem, h.task⟩, rfl, rfl, rfl⟩
  · next hspine =>
      simp only [h.emptyItem]
      refine ⟨⟨h.extensions, hadvanced, rfl, h.task⟩, ?_, ?_, rfl⟩
      · simp [BlockReader.advance, BlockReader.containers, hspine]
      · simp [BlockReader.advance, BlockReader.draft, hspine, BlockReader.framesFrom,
          BlockReader.frame]
  · exact ⟨⟨h.extensions, hadvanced, h.emptyItem, h.task⟩, rfl, rfl, rfl⟩

/--
A reader that stands in levels. What else is open is closed before another block starts; then
what has been found is the draft.
-/
structure Reads (extensions : Extensions) (source : Text) (levels : List Level) (draft : Draft)
    (more : List Container) (reader : BlockReader) : Prop where
  ready : Ready extensions source reader
  stands : StandsIn levels more reader
  draft : (reader.draft source).closeTo (depth levels) = draft

variable {levels : List Level} {draft : Draft} {more : List Container}

def KeepsOpen (source : Text) (levels : List Level) (more : List Container)
    (reader last : BlockReader) : Prop :=
  (last.draft source).closeTo (depth levels + (keptOpen more).length)
    = (reader.draft source).closeTo (depth levels + (keptOpen more).length)

theorem length_keptOpen_le (containers : List Container) :
    (keptOpen containers).length ≤ containers.length := by
  unfold keptOpen
  split <;> simp

theorem keepsOpen_of_closeTo {last : BlockReader} {n : Nat} (hdeep : (keptOpen more).length ≤ n)
    (h : last.draft source = (reader.draft source).closeTo (depth levels + n)) :
    KeepsOpen source levels more reader last := by
  rw [KeepsOpen, h, Draft.closeTo_closeTo (Nat.add_le_add_left hdeep _)]

theorem Reads.closeTo (h : Reads extensions source levels draft more reader) (n stop : Nat) :
    Reads extensions source levels draft (more.take n)
      (reader.closeTo (depth levels + n) stop) := by
  obtain ⟨containers, hfits, hsame⟩ := h.stands
  refine ⟨ready_closeTo h.ready _ _, ⟨containers, hfits, ?_⟩, ?_⟩
  · rw [containers_closeTo, hsame, ← hfits.length, List.take_length_add_append]
  · rw [BlockReader.draft_closeTo, Draft.closeTo_closeTo (Nat.le_add_right _ _), h.draft]

theorem Reads.readBlock (h : Reads extensions source levels draft more reader)
    {line behind : Text} (hrest : reader.rest = carry levels line ++ '\n' :: behind) :
    ∃ taken, reader.readBlock
        = enter (reader.rest.length + 1)
            (LineHead.continuation more (headAt taken (line ++ '\n' :: behind))).2
            (reader.closeTo (depth levels
                + (LineHead.continuation more (headAt taken (line ++ '\n' :: behind))).1)
              reader.position) ∧
      source.drop (reader.position + taken) = line ++ '\n' :: behind ∧
      carry levels line = (carry levels line).take taken ++ line ∧
        taken + line.length = (carry levels line).length := by
  obtain ⟨containers, hfits, hsame⟩ := h.stands
  obtain ⟨front, hfront, hcontinued⟩ := continuation_carry hfits more 0 line behind
  rw [Nat.zero_add] at hcontinued
  refine ⟨front.length, ?_, ?_, ?_, ?_⟩
  · rw [readBlock_eq, hsame, start_eq, hrest, hcontinued, hfits.length]
  · rw [← List.drop_drop, h.ready.rest, hrest, hfront, List.append_assoc, List.drop_left]
  · rw [hfront, List.take_left]
  · rw [hfront, List.length_append]

theorem Reads.blankLine (h : Reads extensions source levels draft more reader) {inner : List Level}
    (hfits : Fits inner more) {behind : Text}
    (hrest : reader.rest = carry levels [] ++ '\n' :: behind) :
    ∃ more', Reads extensions source levels draft more' reader.readBlock ∧
      (∃ inner', Fits inner' more') ∧ reader.readBlock.rest = behind ∧
        keptOpen more' = keptOpen more ∧ more'.head? ≠ some .quote ∧
          KeepsOpen source levels more reader reader.readBlock := by
  obtain ⟨taken, hstep, -, -, hlength⟩ := h.readBlock hrest
  obtain ⟨inner', hfits', hplain, hkept, hsame⟩ := continuation_blank hfits taken behind
  have hclosed := h.closeTo
    (LineHead.continuation more (headAt taken ('\n' :: behind))).1 reader.position
  rw [List.nil_append, hsame, enter_blank] at hstep
  obtain ⟨hready, hcontainers, hdraft', hrest'⟩ := blankLine_spec hclosed.ready (taken + 1)
  refine ⟨_, ?_, ⟨inner', hfits'⟩, ?_, hkept, hfits'.head_quote.not.mp hplain, ?_⟩
  · rw [hstep]
    refine ⟨hready, ?_, hdraft' ▸ hclosed.draft⟩
    obtain ⟨outer, hfits, hstands⟩ := hclosed.stands
    exact ⟨outer, hfits, hcontainers.trans hstands⟩
  · have hstays := BlockReader.stays_closeTo (depth levels
      + (LineHead.continuation more (headAt taken ('\n' :: behind))).1) reader.position reader
    rw [hstep, hrest', hstays.rest, hrest]
    simp only [List.length_nil, Nat.add_zero] at hlength
    rw [hlength, ← List.drop_drop, List.drop_left]
    rfl
  · refine keepsOpen_of_closeTo ?_ (by rw [hstep, hdraft', BlockReader.draft_closeTo])
    rw [← hkept]
    exact Nat.le_trans (length_keptOpen_le _) (List.length_take_le _ _)

/-- Blank lines between blocks close quotes, and keep lists open. -/
theorem Reads.blankLines (h : Reads extensions source levels draft more reader) {inner : List Level}
    (hfits : Fits inner more) {n : Nat} {behind : Text}
    (hrest : reader.rest = below levels (List.replicate n []) ++ behind) :
    ∃ last more', Steps reader last ∧ Reads extensions source levels draft more' last ∧
      (∃ inner', Fits inner' more') ∧ last.rest = behind ∧ keptOpen more' = keptOpen more ∧
        (more'.head? = some .quote → n = 0 ∧ more.head? = some .quote) ∧
          KeepsOpen source levels more reader last := by
  induction n generalizing reader more inner with
  | zero =>
      exact ⟨reader, more, .refl reader, h, ⟨inner, hfits⟩, hrest, rfl, fun hquote => ⟨rfl, hquote⟩,
        rfl⟩
  | succ n ih =>
      rw [List.replicate_succ, below_cons, List.append_assoc, List.cons_append] at hrest
      obtain ⟨more', hreads, ⟨inner', hfits'⟩, hrest', hkept, hplain, hkeeps⟩ :=
        h.blankLine hfits hrest
      obtain ⟨last, more'', hsteps, hreads', hfits'', hdone, hkept', hplain', hkeeps'⟩ :=
        ih hreads hfits' hrest'
      rw [KeepsOpen, hkept] at hkeeps'
      refine ⟨last, more'', .step ?_ hsteps, hreads', hfits'', hdone, hkept'.trans hkept, ?_,
        hkeeps'.trans hkeeps⟩
      · rw [hrest', hrest]
        simp only [List.length_append, List.length_cons]
        omega
      · exact fun hquote => absurd (hplain' hquote).2 hplain

/-- A line that starts a block is entered with all but the levels closed, and a list. -/
theorem Reads.arrive (h : Reads extensions source levels draft more reader) {inner : List Level}
    (hfits : Fits inner more) {line behind : Text} (hvisible : Visible line)
    (hplain : more.head? = some .quote → line.head? ≠ some '>')
    (hrest : reader.rest = carry levels line ++ '\n' :: behind) :
    ∃ taken next, reader.readBlock
        = enter (reader.rest.length + 1) (headAt taken (line ++ '\n' :: behind)) next ∧
      Reads extensions source levels draft (keptOpen more) next ∧
      source.drop (next.position + taken) = line ++ '\n' :: behind ∧
      line.length ≤ reader.rest.length ∧ KeepsOpen source levels more reader next := by
  obtain ⟨taken, hstep, hlocated, -, hlength⟩ := h.readBlock hrest
  obtain ⟨hcontinued, hkept⟩ := continuation_visible hfits hvisible
    (fun hquote => hplain (hfits.head_quote.mp hquote)) taken ('\n' :: behind)
  have hclosed := h.closeTo (keptOpen more).length reader.position
  rw [hkept] at hclosed
  have hstays := BlockReader.stays_closeTo (depth levels + (keptOpen more).length) reader.position
    reader
  refine ⟨taken, _, ?_, hclosed, ?_, ?_,
    keepsOpen_of_closeTo (Nat.le_refl _) (BlockReader.draft_closeTo _ _ _)⟩
  · rw [hstep, hcontinued]
  · rw [hstays.position, hlocated]
  · rw [hrest, List.length_append]
    omega

end Canonmark.Printed
