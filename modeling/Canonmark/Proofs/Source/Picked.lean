import Canonmark.Source.BlockReader

/-!
# What leaves hold, in the order of the source

Something may be picked from each leaf, such as its literal text. What a reader of blocks has
found so far stays, in this order, whatever containers are closed around it.
-/

namespace Canonmark.Source

def Container.isFootnote : Container → Bool
  | .footnote _ => true
  | _ => false

/-- What is picked from a leaf. Lists may be tightened later, and check boxes hold nothing. -/
structure Pick (α : Type) where
  pick : (inFootnote : Bool) → LeafBlock → Span → List α
  paragraph (inFootnote tight : Bool) (tokens : List Token) (span : Span) :
    pick inFootnote (.paragraph tight tokens) span = pick inFootnote (.paragraph false tokens) span
  task (inFootnote checked : Bool) (span : Span) : pick inFootnote (.task checked) span = []

variable {α : Type} (pick : Pick α)

namespace BlockTree

mutual

def picked (inFootnote : Bool) : BlockTree → List α
  | .leaf block span => pick.pick inFootnote block span
  | .node container _ children => allPicked (inFootnote || container.isFootnote) children

def allPicked (inFootnote : Bool) : List BlockTree → List α
  | [] => []
  | tree :: rest => picked inFootnote tree ++ allPicked inFootnote rest

end

theorem allPicked_eq (inFootnote : Bool) (trees : List BlockTree) :
    allPicked pick inFootnote trees = trees.flatMap (picked pick inFootnote) := by
  induction trees with
  | nil => rfl
  | cons tree rest ih => rw [allPicked, ih, List.flatMap_cons]

@[simp] theorem allPicked_append (inFootnote : Bool) (first second : List BlockTree) :
    allPicked pick inFootnote (first ++ second) =
      allPicked pick inFootnote first ++ allPicked pick inFootnote second := by
  simp [allPicked_eq]

theorem picked_tightenLeaf (inFootnote : Bool) (tree : BlockTree) :
    picked pick inFootnote tree.tightenLeaf = picked pick inFootnote tree := by
  cases tree with
  | leaf leaf span =>
      cases leaf with
      | paragraph tight tokens =>
          exact (pick.paragraph inFootnote true tokens span).trans
            (pick.paragraph inFootnote tight tokens span).symm
      | _ => rfl
  | node container span children => rfl

@[simp] theorem picked_tighten (inFootnote : Bool) (tree : BlockTree) :
    picked pick inFootnote tree.tighten = picked pick inFootnote tree := by
  cases tree with
  | leaf leaf span => rfl
  | node container span children =>
      cases container with
      | item indent =>
          simp [tighten, picked, allPicked_eq, List.flatMap_map, picked_tightenLeaf]
      | _ => rfl

end BlockTree

namespace BlockReader

def inFootnote (spine : List OpenContainer) : Bool := spine.any (·.container.isFootnote)

/-- What is picked in open containers, and in the closed blocks before them. -/
def spinePicked (blocks : List BlockTree) : List OpenContainer → List α
  | [] => BlockTree.allPicked pick false blocks.reverse
  | innermost :: spine =>
      spinePicked blocks spine ++
        BlockTree.allPicked pick (inFootnote (innermost :: spine)) innermost.children.reverse

def picked (reader : BlockReader) : List α := spinePicked pick reader.blocks reader.spine

variable {pick}

theorem picked_append (tree : BlockTree) (reader : BlockReader) :
    (reader.append tree).picked pick =
      reader.picked pick ++ tree.picked pick (inFootnote reader.spine) := by
  unfold append
  split
  · next hspine => simp [picked, hspine, spinePicked, BlockTree.allPicked, inFootnote]
  · next innermost spine hspine =>
      simp [picked, hspine, spinePicked, BlockTree.allPicked, inFootnote]

theorem picked_close (stop : Nat) (reader : BlockReader) :
    (reader.close stop).picked pick = reader.picked pick := by
  unfold close
  split
  · rfl
  next container start children spine hspine =>
  have hinner (items : List BlockTree) :
      BlockTree.picked pick (inFootnote spine) (.node container (.upTo start stop) items) =
        BlockTree.allPicked pick (inFootnote (⟨container, start, children⟩ :: spine)) items := by
    rw [BlockTree.picked]
    simp [inFootnote, Bool.or_comm]
  simp only
  split
  · rw [picked_append, hinner]
    simp [picked, hspine, spinePicked, BlockTree.allPicked_eq, ← List.map_reverse,
      List.flatMap_map]
  · rw [picked_append, hinner]
    simp [picked, hspine, spinePicked]

@[simp] theorem picked_push (container : Container) (start : Nat) (reader : BlockReader) :
    (reader.push container start).picked pick = reader.picked pick := by
  simp [push, picked, spinePicked, BlockTree.allPicked]

@[simp] theorem picked_advance (n : Nat) (reader : BlockReader) :
    (reader.advance n).picked pick = reader.picked pick := rfl

@[simp] theorem picked_closeTo (depth stop : Nat) (reader : BlockReader) :
    (reader.closeTo depth stop).picked pick = reader.picked pick := by
  unfold closeTo
  generalize List.range (reader.spine.length - depth) = steps
  induction steps generalizing reader with
  | nil => rfl
  | cons step steps ih => rw [List.foldl_cons, ih, picked_close]

@[simp] theorem picked_finishEmptyItem (reader : BlockReader) :
    reader.finishEmptyItem.picked pick = reader.picked pick := by
  unfold finishEmptyItem
  split
  · exact picked_close _ reader
  · rfl

@[simp] theorem picked_loosenParent (reader : BlockReader) :
    reader.loosenParent.picked pick = reader.picked pick := by
  unfold loosenParent
  split
  · next hspine => simp [picked, hspine, spinePicked, inFootnote, Container.isFootnote]
  · rfl

def closeList (stop : Nat) (reader : BlockReader) : BlockReader :=
  match reader.top? with
  | some (.list _ _ _) => reader.close stop
  | _ => reader

def closeFootnote (stop : Nat) (reader : BlockReader) : BlockReader :=
  match reader.top? with
  | some (.footnote _) => reader.close stop
  | _ => reader

@[simp] theorem picked_closeList (stop : Nat) (reader : BlockReader) :
    (reader.closeList stop).picked pick = reader.picked pick := by
  unfold closeList
  split
  · exact picked_close stop reader
  · rfl

@[simp] theorem picked_closeFootnote (stop : Nat) (reader : BlockReader) :
    (reader.closeFootnote stop).picked pick = reader.picked pick := by
  unfold closeFootnote
  split
  · exact picked_close stop reader
  · rfl

theorem finishList_eq (stop : Nat) (reader : BlockReader) :
    reader.finishList stop =
      if (reader.finishEmptyItem.closeList stop).lastBlank then
        { (reader.finishEmptyItem.closeList stop).loosenParent with lastBlank := false }
      else reader.finishEmptyItem.closeList stop := rfl

@[simp] theorem picked_finishList (stop : Nat) (reader : BlockReader) :
    (reader.finishList stop).picked pick = reader.picked pick := by
  rw [finishList_eq]
  split
  · refine (picked_loosenParent (reader.finishEmptyItem.closeList stop)).trans ?_
    rw [picked_closeList, picked_finishEmptyItem]
  · rw [picked_closeList, picked_finishEmptyItem]

@[simp] theorem picked_continueList (start : Nat) (marker : Char) (number : Nat)
    (reader : BlockReader) :
    (reader.continueList start marker number).picked pick = reader.picked pick := by
  have hopen (reader : BlockReader) (last : Bool) :
      ({ reader.push (.list true marker number) start with lastBlank := last } :
        BlockReader).picked pick = reader.picked pick := picked_push _ start reader
  unfold continueList
  simp only
  split
  · exact (hopen _ false).trans (picked_finishEmptyItem reader)
  · next hspine =>
      split
      · rw [← picked_finishEmptyItem reader]
        simp [picked, hspine, spinePicked, inFootnote, Container.isFootnote]
      · exact (hopen _ false).trans
          ((picked_finishList start _).trans (picked_finishEmptyItem reader))
  · exact (hopen _ false).trans
      ((picked_finishList start _).trans (picked_finishEmptyItem reader))

def openFootnote (label : Text) (start length : Nat) (reader : BlockReader) : BlockReader :=
  { (((reader.finishList start).closeFootnote start).advance length).push (.footnote label)
      start with
    footnotes := Label.key label :: ((reader.finishList start).closeFootnote start).footnotes }

@[simp] theorem picked_openFootnote (label : Text) (start length : Nat) (reader : BlockReader) :
    (reader.openFootnote label start length).picked pick = reader.picked pick := by
  refine (picked_push (.footnote label) start
    (((reader.finishList start).closeFootnote start).advance length)).trans ?_
  rw [picked_advance, picked_closeFootnote, picked_finishList]

theorem footnote?_eq (head : LineHead) (reader : BlockReader) (rest : Text)
    (hrest : head.rest = '[' :: '^' :: rest) (hfootnotes : reader.extensions.footnotes = true) :
    footnote? head reader = (footnoteLabel? rest).map fun (label, n) =>
      reader.openFootnote label (reader.position + head.taken)
        (head.taken + 2 + n + countWhile Ascii.isBlank (rest.drop n)) := by
  simp only [footnote?, hfootnotes, hrest]
  rfl

theorem footnote?_eq_none (head : LineHead) (reader : BlockReader)
    (h : reader.extensions.footnotes = true → ∀ rest, head.rest ≠ '[' :: '^' :: rest) :
    footnote? head reader = none := by
  unfold footnote?
  split
  · next rest hfootnotes hrest => exact absurd hrest (h hfootnotes rest)
  · rfl

theorem exists_openFootnote {head : LineHead} {reader opened : BlockReader}
    (h : footnote? head reader = some opened) :
    ∃ label length, opened = reader.openFootnote label (reader.position + head.taken) length := by
  by_cases hstart : reader.extensions.footnotes = true ∧ ∃ rest, head.rest = '[' :: '^' :: rest
  · obtain ⟨hfootnotes, rest, hrest⟩ := hstart
    rw [footnote?_eq head reader rest hrest hfootnotes] at h
    obtain ⟨⟨label, n⟩, -, rfl⟩ := Option.map_eq_some_iff.mp h
    exact ⟨label, _, rfl⟩
  · rw [footnote?_eq_none head reader fun hfootnotes rest hrest =>
      hstart ⟨hfootnotes, rest, hrest⟩] at h
    cases h

theorem picked_footnote {head : LineHead} {reader opened : BlockReader}
    (h : footnote? head reader = some opened) : opened.picked pick = reader.picked pick := by
  obtain ⟨label, length, rfl⟩ := exists_openFootnote h
  exact picked_openFootnote _ _ _ reader

@[simp] theorem picked_openItem (indent : Nat) (inner : LineHead) (marker : ItemMarker)
    (next : LineHead) (reader : BlockReader) :
    (openItem indent inner marker next reader).1.picked pick = reader.picked pick := by
  have hopened : ((reader.continueList (reader.position + inner.taken - indent) marker.marker
      marker.number).push (.item marker.indent)
        (reader.position + inner.taken - indent)).picked pick = reader.picked pick := by
    rw [picked_push, picked_continueList]
  unfold openItem
  simp only
  split
  · exact hopened
  · split
    · exact hopened
    · split
      · refine (picked_append _ _).trans ?_
        simp [BlockTree.picked, pick.task]
      · exact hopened

@[simp] theorem picked_openContainers (fuel : Nat) (head : LineHead) (reader : BlockReader) :
    (openContainers fuel head reader).1.picked pick = reader.picked pick := by
  induction fuel generalizing head reader with
  | zero => rfl
  | succ fuel ih =>
      unfold openContainers
      simp only
      split
      · rfl
      split
      · next hfootnote => rw [ih, picked_footnote hfootnote]
      split
      · next marker next hmarker =>
          have hitem := @picked_openItem _ pick (head.takeUpTo 4).1 (head.takeUpTo 4).2 marker next
            reader
          split
          · next opened behind hopened =>
              rw [hopened] at hitem
              split
              · exact hitem
              · rw [ih, hitem]
          · next opened hopened =>
              rw [hopened] at hitem
              exact hitem
      · split
        · rw [ih, picked_push, picked_finishList]
        · rfl

@[simp] theorem picked_blankLine (n : Nat) (reader : BlockReader) :
    (reader.blankLine n).picked pick = reader.picked pick := by
  unfold blankLine
  rw [picked_advance]
  split
  · rfl
  · next hspine => simp [picked, hspine, spinePicked, inFootnote, Container.isFootnote]
  · rfl

end BlockReader

end Canonmark.Source
