import Canonmark.Proofs.Printed.Carried
import Canonmark.Proofs.Source.Draft

/-!
# Where a reader stands

A reader stands in the levels that its outer containers are of, with more containers open inside.
Closing, finishing and continuing lists moves it from one place to another, and its draft with it.
-/

namespace Canonmark.Printed

open Source

def loosened : Container → Container
  | .list _ marker number => .list false marker number
  | container => container

theorem Fits.of_loosened {levels : List Level} {first second : List Container}
    (h : Fits levels first) (hsame : first.map loosened = second.map loosened) :
    Fits levels second := by
  induction h generalizing second with
  | nil =>
      cases second with
      | nil => exact .nil
      | cons container second => cases hsame
  | @quote levels containers _ ih =>
      cases second with
      | nil => cases hsame
      | cons container second =>
          obtain ⟨hhead, htail⟩ := List.cons.inj hsame
          cases container with
          | quote => exact .quote (ih htail)
          | _ => cases hhead
  | @item tight marker number width hwide levels containers _ ih =>
      cases second with
      | nil => cases hsame
      | cons container second =>
          obtain ⟨hhead, htail⟩ := List.cons.inj hsame
          cases container with
          | list tight' marker' number' =>
              cases second with
              | nil => cases htail
              | cons container second =>
                  obtain ⟨hinner, hrest⟩ := List.cons.inj htail
                  cases container with
                  | item width' =>
                      cases hinner
                      cases hhead
                      exact .item tight' _ number hwide (ih hrest)
                  | _ => cases hinner
          | _ => cases hhead

theorem Fits.not_list {levels : List Level} {containers : List Container}
    (h : Fits levels containers) (tight : Bool) (marker : Char) (number : Nat) :
    containers.getLast? ≠ some (.list tight marker number) := by
  induction h with
  | nil => simp
  | quote h ih =>
      cases h with
      | nil => simp
      | _ => simpa [List.getLast?_cons_cons] using ih
  | item _ _ _ _ h ih =>
      cases h with
      | nil => simp
      | _ => simpa [List.getLast?_cons_cons] using ih

/-- What holds of a reader of printed lines between its steps. -/
structure Ready (extensions : Extensions) (source : Text) (reader : BlockReader) : Prop where
  extensions : reader.extensions = extensions
  rest : source.drop reader.position = reader.rest
  emptyItem : reader.emptyItem = none
  task : reader.task = none

variable {extensions : Extensions} {source : Text} {reader : BlockReader}

def StandsIn (levels : List Level) (more : List Container) (reader : BlockReader) : Prop :=
  ∃ containers, Fits levels containers ∧ reader.containers = containers ++ more

theorem containers_close (stop : Nat) (reader : BlockReader) :
    (reader.close stop).containers = reader.containers.dropLast := by
  obtain ⟨spine, blocks, hspine, heq⟩ := BlockReader.close_eq stop reader
  rw [heq]
  simp only [BlockReader.containers, hspine, List.dropLast_reverse]

theorem ready_close (h : Ready extensions source reader) (stop : Nat) :
    Ready extensions source (reader.close stop) := by
  obtain ⟨spine, blocks, -, heq⟩ := BlockReader.close_eq stop reader
  rw [heq]
  refine ⟨h.extensions, h.rest, ?_, h.task⟩
  simp only
  split
  · rfl
  · exact h.emptyItem

@[simp] theorem length_containers (reader : BlockReader) :
    reader.containers.length = reader.spine.length := by
  simp [BlockReader.containers]

theorem containers_closeTo (depth stop : Nat) (reader : BlockReader) :
    (reader.closeTo depth stop).containers = reader.containers.take depth := by
  have hclose (n : Nat) (reader : BlockReader) :
      ((BlockReader.close stop)^[n] reader).containers
        = reader.containers.take (reader.containers.length - n) := by
    induction n generalizing reader with
    | zero => rw [Nat.sub_zero, List.take_length]; rfl
    | succ n ih =>
        rw [Function.iterate_succ_apply, ih, containers_close, List.dropLast_eq_take,
          List.take_take, List.length_take]
        congr 1
        omega
  rw [BlockReader.closeTo_eq, hclose, length_containers]
  by_cases h : depth ≤ reader.spine.length
  · congr 1
    omega
  · rw [List.take_of_length_le (by simp; omega), List.take_of_length_le (by simp; omega)]

theorem ready_closeTo (h : Ready extensions source reader) (depth stop : Nat) :
    Ready extensions source (reader.closeTo depth stop) := by
  rw [BlockReader.closeTo_eq]
  generalize reader.spine.length - depth = n
  induction n generalizing reader with
  | zero => exact h
  | succ n ih =>
      rw [Function.iterate_succ_apply]
      exact ih (ready_close h stop)

theorem finishEmptyItem_eq (h : Ready extensions source reader) :
    reader.finishEmptyItem = reader := by
  obtain ⟨_, _, _, _, _, emptyItem, _, _, _, _⟩ := reader
  cases h.emptyItem
  rfl

theorem containers_loosenParent (reader : BlockReader) :
    reader.loosenParent.containers.map loosened = reader.containers.map loosened := by
  unfold BlockReader.loosenParent
  split
  · next hspine => simp [BlockReader.containers, hspine, loosened]
  · rfl

theorem ready_loosenParent (h : Ready extensions source reader) :
    Ready extensions source reader.loosenParent := by
  unfold BlockReader.loosenParent
  split
  · exact ⟨h.extensions, h.rest, h.emptyItem, h.task⟩
  · exact h

theorem top?_eq_getLast? (reader : BlockReader) :
    reader.top? = reader.containers.getLast? := by
  rw [BlockReader.top?_eq, BlockReader.containers, List.getLast?_reverse]

/-- What may be open inside of the levels in front of a block: a list that it does not continue. -/
def IsList (more : List Container) : Prop :=
  more = [] ∨ ∃ tight marker number, more = [.list tight marker number]

theorem closeList_spec {levels : List Level} {more : List Container}
    (h : Ready extensions source reader) {containers : List Container}
    (hfits : Fits levels containers) (hstands : reader.containers = containers ++ more)
    (hlist : IsList more) (stop : Nat) :
    Ready extensions source (reader.closeList stop) ∧
      (reader.closeList stop).containers = containers ∧
      (reader.closeList stop).draft source
        = (reader.draft source).closeTo containers.length := by
  have hlength : (reader.draft source).frames.length = containers.length + more.length := by
    rw [BlockReader.length_draft, ← length_containers, hstands, List.length_append]
  unfold BlockReader.closeList
  rw [top?_eq_getLast?, hstands]
  rcases hlist with rfl | ⟨tight, marker, number, rfl⟩
  · rw [List.append_nil] at hstands ⊢
    have hclosed : (reader.draft source).closeTo containers.length = reader.draft source :=
      Draft.closeTo_of_le (by simp [hlength])
    split
    · next hlast => exact absurd hlast (hfits.not_list _ _ _)
    · exact ⟨h, hstands, hclosed.symm⟩
  · rw [List.getLast?_concat]
    refine ⟨ready_close h stop, ?_, ?_⟩
    · rw [containers_close, hstands, List.dropLast_concat]
    · rw [BlockReader.draft_close, Draft.closeTo_of_succ (by simp [hlength])]

theorem finishList_spec {levels : List Level} {more : List Container}
    (h : Ready extensions source reader) {containers : List Container}
    (hfits : Fits levels containers) (hstands : reader.containers = containers ++ more)
    (hlist : IsList more) (stop : Nat) :
    Ready extensions source (reader.finishList stop) ∧
      StandsIn levels [] (reader.finishList stop) ∧
      (reader.finishList stop).draft source
        = (reader.draft source).closeTo containers.length := by
  obtain ⟨hready, hsame, hdraft⟩ := closeList_spec h hfits hstands hlist stop
  rw [BlockReader.finishList_eq, finishEmptyItem_eq h]
  split
  · have hloose := containers_loosenParent (reader.closeList stop)
    have hready' := ready_loosenParent hready
    refine ⟨⟨hready'.extensions, hready'.rest, hready'.emptyItem, hready'.task⟩, ?_, ?_⟩
    · refine ⟨_, hfits.of_loosened ?_, (List.append_nil _).symm⟩
      exact (hsame ▸ hloose).symm
    · exact (BlockReader.draft_loosenParent _).trans hdraft
  · exact ⟨hready, ⟨containers, hfits, by rw [hsame, List.append_nil]⟩, hdraft⟩

theorem framesFrom_inner {spine : List OpenContainer} (inner : Option Nat)
    (h : ∀ tight marker number,
      (spine.map (·.container)).head? ≠ some (.list tight marker number)) :
    BlockReader.framesFrom source inner spine = BlockReader.framesFrom source none spine := by
  cases spine with
  | nil => rfl
  | cons innermost spine =>
      obtain ⟨container, start, children⟩ := innermost
      cases container with
      | list tight marker number => exact absurd rfl (h tight marker number)
      | _ => rfl

theorem head?_containers (reader : BlockReader) :
    (reader.spine.map (·.container)).head? = reader.containers.getLast? := by
  rw [BlockReader.containers, List.getLast?_reverse]

theorem framesFrom_levels (source : Text) {levels : List Level}
    (hstands : StandsIn levels [] reader)
    (inner : Option Nat) :
    BlockReader.framesFrom source inner reader.spine
      = BlockReader.framesFrom source none reader.spine := by
  obtain ⟨containers, hfits, hsame⟩ := hstands
  rw [List.append_nil] at hsame
  apply framesFrom_inner
  intro tight marker number
  rw [head?_containers, hsame]
  exact hfits.not_list tight marker number

theorem containers_push (container : Container) (start : Nat) (reader : BlockReader) :
    (reader.push container start).containers = reader.containers ++ [container] := by
  simp [BlockReader.push, BlockReader.containers]

theorem pushQuote_spec (source : Text) {levels : List Level}
    (hstands : StandsIn levels [] reader) (start : Nat) :
    StandsIn (levels ++ [.quote]) [] (reader.push .quote start) ∧
      (reader.push .quote start).draft source = (reader.draft source).push (.quote []) := by
  refine ⟨?_, ?_⟩
  · obtain ⟨containers, hfits, hsame⟩ := hstands
    refine ⟨containers ++ [.quote], hfits.append (.quote .nil), ?_⟩
    rw [containers_push, hsame, List.append_nil, List.append_nil]
  · have hinner := framesFrom_levels source hstands (some start)
    simp only [BlockReader.draft, BlockReader.push, BlockReader.framesFrom, hinner]
    rfl

def openList (marker : Char) (number width start : Nat) (reader : BlockReader) : BlockReader :=
  { reader.push (.list true marker number) start with lastBlank := false }.push (.item width) start

theorem openList_spec {levels : List Level} (h : Ready extensions source reader)
    (hstands : StandsIn levels [] reader) (marker : Char) (number start : Nat) {width : Nat}
    (hwide : 0 < width) :
    Ready extensions source (openList marker number width start reader) ∧
      StandsIn (levels ++ [.item marker width]) [] (openList marker number width start reader) ∧
      (openList marker number width start reader).draft source
        = ((reader.draft source).push
            (.list (listKind source (BlockTree.listNumber marker number) (some start)) [])).push
              (.item []) := by
  refine ⟨⟨h.extensions, h.rest, h.emptyItem, h.task⟩, ?_, ?_⟩
  · obtain ⟨containers, hfits, hsame⟩ := hstands
    refine ⟨_, hfits.append (.item true marker number hwide .nil), ?_⟩
    simp only [List.append_nil] at hsame ⊢
    rw [openList, containers_push, ← hsame]
    simp [BlockReader.push, BlockReader.containers]
  · have hinner := framesFrom_levels source hstands (some start)
    simp only [openList, BlockReader.draft, BlockReader.push, BlockReader.framesFrom, hinner]
    rfl

/-- An item opens a list of its own behind a list with another marker. -/
theorem newItem_spec {levels : List Level} {more : List Container}
    (h : Ready extensions source reader) {containers : List Container}
    (hfits : Fits levels containers) (hstands : reader.containers = containers ++ more)
    {marker : Char}
    (hlist' : more = [] ∨ ∃ tight other number, more = [.list tight other number] ∧ other ≠ marker)
    (number start : Nat) {width : Nat} (hwide : 0 < width) :
    Ready extensions source
        ((reader.continueList start marker number).push (.item width) start) ∧
      StandsIn (levels ++ [.item marker width]) []
        ((reader.continueList start marker number).push (.item width) start) ∧
      ((reader.continueList start marker number).push (.item width) start).draft source
        = (((reader.draft source).closeTo containers.length).push
            (.list (listKind source (BlockTree.listNumber marker number) (some start)) [])).push
              (.item []) := by
  have hlist : IsList more := by
    rcases hlist' with rfl | ⟨tight, other, number, rfl, -⟩
    · exact .inl rfl
    · exact .inr ⟨tight, other, number, rfl⟩
  obtain ⟨hready, hlevels, hdraft⟩ := finishList_spec h hfits hstands hlist start
  have hfinished : (reader.continueList start marker number).push (.item width) start
      = openList marker number width start (reader.finishList start) ∨
      reader.spine = [] ∧ (reader.continueList start marker number).push (.item width) start
        = openList marker number width start reader := by
    unfold BlockReader.continueList
    simp only [finishEmptyItem_eq h]
    split
    · next hnone => exact .inr ⟨hnone, rfl⟩
    · next hspine =>
        refine .inl ?_
        rw [if_neg]
        · rfl
        · rintro rfl
          have hlast := head?_containers reader
          rw [hspine, hstands] at hlast
          rcases hlist' with rfl | ⟨tight, other, number, rfl, hdiffers⟩
          · rw [List.append_nil] at hlast
            exact hfits.not_list _ _ _ hlast.symm
          · rw [List.getLast?_concat] at hlast
            cases hlast
            exact hdiffers rfl
    · exact .inl rfl
  rcases hfinished with hsame | ⟨hnone, hsame⟩
  · rw [hsame, ← hdraft]
    exact openList_spec hready hlevels marker number start hwide
  · have hempty : reader.containers = [] := by simp [BlockReader.containers, hnone]
    obtain ⟨rfl, rfl⟩ := List.append_eq_nil_iff.mp (hstands.symm.trans hempty)
    have hclosed : (reader.draft source).closeTo 0 = reader.draft source :=
      Draft.closeTo_of_le (by simp [hnone])
    rw [hsame, List.length_nil, hclosed]
    exact openList_spec h ⟨[], hfits, hstands⟩ marker number start hwide

/-- An item continues the list of the items before it. -/
theorem nextItem_spec {levels : List Level} (h : Ready extensions source reader)
    {tight : Bool} {marker : Char} {first : Nat}
    (hstands : StandsIn levels [.list tight marker first] reader)
    {base : Draft} {kind : ListKind} {items : List Outline} (hsome : items ≠ [])
    (hdraft : reader.draft source = base.push (.list kind items)) (number start : Nat)
    {width : Nat} (hwide : 0 < width) :
    Ready extensions source
        ((reader.continueList start marker number).push (.item width) start) ∧
      StandsIn (levels ++ [.item marker width]) []
        ((reader.continueList start marker number).push (.item width) start) ∧
      ((reader.continueList start marker number).push (.item width) start).draft source
        = (base.push (.list kind items)).push (.item []) := by
  obtain ⟨containers, hfits, hstands⟩ := hstands
  have hlast := head?_containers reader
  rw [hstands, List.getLast?_concat] at hlast
  rcases hspine : reader.spine with - | ⟨⟨container, begun, children⟩, spine⟩
  · rw [hspine] at hlast
    cases hlast
  rw [hspine] at hlast
  obtain rfl : container = .list tight marker first := Option.some.inj hlast
  have hcontinued : reader.continueList start marker number = { reader with
      spine := ⟨.list (tight && !reader.lastBlank) marker first, begun, children⟩ :: spine
      lastBlank := false } := by
    unfold BlockReader.continueList
    simp only [finishEmptyItem_eq h, hspine, if_true]
  rw [hcontinued]
  refine ⟨⟨h.extensions, h.rest, h.emptyItem, h.task⟩, ?_, ?_⟩
  · have houter : (spine.map (·.container)).reverse = containers := by
      have hall : reader.containers = (spine.map (·.container)).reverse
          ++ [.list tight marker first] := by
        simp [BlockReader.containers, hspine]
      exact List.append_cancel_right (hall.symm.trans hstands)
    refine ⟨_, hfits.append (.item (tight && !reader.lastBlank) marker first hwide .nil), ?_⟩
    simp [BlockReader.push, BlockReader.containers, houter]
  · have hfilled : children ≠ [] := by
      rintro rfl
      simp only [BlockReader.draft, hspine, BlockReader.framesFrom, BlockReader.frame,
        Draft.push, Draft.mk.injEq, List.cons.injEq, Frame.list.injEq] at hdraft
      exact hsome hdraft.2.1.2.symm
    have hsame : BlockReader.firstStart (some start) children
        = BlockReader.firstStart none children := by
      obtain ⟨child, hlatest⟩ := List.getLast?_isSome.mpr hfilled |> Option.isSome_iff_exists.mp
      simp [BlockReader.firstStart, hlatest]
    rw [← hdraft]
    simp only [BlockReader.draft, BlockReader.push, BlockReader.framesFrom, hspine, Draft.push,
      BlockReader.frame, hsame]
    rfl

end Canonmark.Printed
