import Canonmark.Proofs.Document.Outline
import Canonmark.Proofs.Source.Alike

/-!
# How blocks are nested

Lists hold items and nothing else, items stand in lists only, and only items hold text that is in
no paragraph. The reader keeps this up for closed blocks and for the containers that are open.
-/

namespace Canonmark.Source

namespace Container

def place : Container → Place
  | .list _ _ _ => .list
  | .item _ => .item
  | _ => .free

/-- Items stand in lists, and other containers do not. -/
def Fits (place : Place) : Container → Prop
  | .item _ => place = .list
  | _ => place ≠ .list

end Container

namespace LeafBlock

/-- Text that is in no paragraph stands in items. -/
def Fits (place : Place) : LeafBlock → Prop
  | .paragraph true _ => place = .item
  | .task _ => place = .item
  | _ => place ≠ .list

theorem Fits.ne_list {block : LeafBlock} {place : Place} (h : block.Fits place) :
    place ≠ .list := by
  unfold Fits at h
  split at h
  · exact h ▸ by decide
  · exact h ▸ by decide
  · exact h

end LeafBlock

namespace BlockTree

def Fits (place : Place) : BlockTree → Prop
  | .leaf block _ => block.Fits place
  | .node container _ _ => container.Fits place

mutual

def Nested : BlockTree → Prop
  | .leaf _ _ => True
  | .node container _ children => AllNested container.place children

def AllNested (place : Place) : List BlockTree → Prop
  | [] => True
  | tree :: rest => (Fits place tree ∧ Nested tree) ∧ AllNested place rest

end

theorem allNested_iff (place : Place) (trees : List BlockTree) :
    AllNested place trees ↔ ∀ tree ∈ trees, tree.Fits place ∧ tree.Nested := by
  induction trees with
  | nil => simp [AllNested]
  | cons tree rest ih => simp [AllNested, ih]

theorem nested_tightenLeaf {tree : BlockTree} (hfits : tree.Fits .item) (h : tree.Nested) :
    tree.tightenLeaf.Fits .item ∧ tree.tightenLeaf.Nested := by
  cases tree with
  | leaf leaf span =>
      cases leaf with
      | paragraph tight tokens => exact ⟨rfl, trivial⟩
      | _ => exact ⟨hfits, trivial⟩
  | node container span children => exact ⟨hfits, h⟩

theorem nested_tighten {tree : BlockTree} {place : Place} (hfits : tree.Fits place)
    (h : tree.Nested) : tree.tighten.Fits place ∧ tree.tighten.Nested := by
  cases tree with
  | leaf leaf span => exact ⟨hfits, h⟩
  | node container span children =>
      cases container with
      | item indent =>
          refine ⟨hfits, ?_⟩
          simp only [tighten, Nested, allNested_iff] at h ⊢
          rintro tree htree
          obtain ⟨child, hchild, rfl⟩ := List.mem_map.mp htree
          obtain ⟨hfits, hnested⟩ := h child hchild
          exact nested_tightenLeaf hfits hnested
      | _ => exact ⟨hfits, h⟩

end BlockTree

namespace BlockReader

def placeOf (spine : List OpenContainer) : Place := (spine.head?.map (·.container.place)).getD .free

def SpineNested (blocks : List BlockTree) : List OpenContainer → Prop
  | [] => BlockTree.AllNested .free blocks
  | innermost :: spine =>
      (innermost.container.Fits (placeOf spine) ∧
        BlockTree.AllNested innermost.container.place innermost.children) ∧
        SpineNested blocks spine

def Nested (reader : BlockReader) : Prop := SpineNested reader.blocks reader.spine

variable {reader : BlockReader}

theorem nested_append {tree : BlockTree} (h : reader.Nested)
    (hfits : tree.Fits (placeOf reader.spine)) (htree : tree.Nested) :
    (reader.append tree).Nested := by
  unfold append Nested at *
  split
  · next hspine =>
      rw [hspine] at h hfits
      simp only [hspine]
      exact ⟨⟨hfits, htree⟩, h⟩
  · next innermost spine hspine =>
      rw [hspine] at h hfits
      exact ⟨⟨h.1.1, ⟨hfits, htree⟩, h.1.2⟩, h.2⟩

theorem placeOf_append (tree : BlockTree) (reader : BlockReader) :
    placeOf (reader.append tree).spine = placeOf reader.spine := by
  unfold append
  split
  · next hspine => simp [hspine]
  · next hspine => simp [hspine, placeOf]

theorem nested_push {container : Container} (h : reader.Nested)
    (hfits : container.Fits (placeOf reader.spine)) (start : Nat) :
    (reader.push container start).Nested :=
  ⟨⟨hfits, trivial⟩, h⟩

theorem nested_close (h : reader.Nested) (stop : Nat) :
    (reader.close stop).Nested ∧
      placeOf (reader.close stop).spine = placeOf reader.spine.tail := by
  unfold close
  split
  · next hspine =>
      refine ⟨h, ?_⟩
      simp [hspine]
  next container start children spine hspine =>
  unfold Nested at h
  rw [hspine] at h ⊢
  obtain ⟨⟨hfits, hchildren⟩, hrest⟩ := h
  have hreverse : BlockTree.AllNested container.place children.reverse := by
    simpa [BlockTree.allNested_iff] using hchildren
  have hclosed (items : List BlockTree) (hitems : BlockTree.AllNested container.place items)
      (empty : Option Nat) :
      Nested (({ reader with spine := spine, emptyItem := empty } : BlockReader).append
        (.node container (.upTo start stop) items)) ∧
        placeOf (({ reader with spine := spine, emptyItem := empty } : BlockReader).append
          (.node container (.upTo start stop) items)).spine = placeOf spine :=
    ⟨nested_append hrest hfits hitems, placeOf_append _ _⟩
  simp only [List.tail_cons]
  split
  · refine hclosed _ ?_ none
    simp only [BlockTree.allNested_iff, List.mem_reverse, List.mem_map] at hchildren ⊢
    rintro tree ⟨child, hchild, rfl⟩
    obtain ⟨hfits, hnested⟩ := hchildren child hchild
    exact BlockTree.nested_tighten hfits hnested
  · exact hclosed _ hreverse reader.emptyItem

theorem nested_closeTo (h : reader.Nested) (depth stop : Nat) :
    (reader.closeTo depth stop).Nested := by
  unfold closeTo
  generalize List.range (reader.spine.length - depth) = steps
  induction steps generalizing reader with
  | nil => exact h
  | cons step steps ih => exact ih (nested_close h stop).1

/-! ## Lists and footnotes -/

theorem nested_finishEmptyItem (h : reader.Nested) : reader.finishEmptyItem.Nested := by
  unfold finishEmptyItem
  simp only
  split
  · exact (nested_close h _).1
  · exact h

theorem nested_closeList (h : reader.Nested) (stop : Nat) :
    (reader.closeList stop).Nested ∧ placeOf (reader.closeList stop).spine ≠ .list := by
  unfold closeList
  rcases hspine : reader.spine with - | ⟨innermost, spine⟩
  · simp only [top?, hspine]
    refine ⟨h, ?_⟩
    simp [placeOf, hspine]
  have htop : reader.top? = some innermost.container := by simp [top?, hspine]
  rw [htop]
  cases hcontainer : innermost.container with
  | list tight marker number =>
      obtain ⟨hclosed, hin⟩ := nested_close h stop
      refine ⟨hclosed, ?_⟩
      unfold Nested at h
      rw [hspine] at h hin
      have hfits := h.1.1
      rw [hcontainer] at hfits
      exact hin ▸ hfits
  | _ =>
      refine ⟨h, ?_⟩
      simp [hspine, placeOf, hcontainer, Container.place]

theorem nested_closeFootnote (h : reader.Nested) (hout : placeOf reader.spine ≠ .list)
    (stop : Nat) :
    (reader.closeFootnote stop).Nested ∧ placeOf (reader.closeFootnote stop).spine ≠ .list := by
  unfold closeFootnote
  rcases hspine : reader.spine with - | ⟨innermost, spine⟩
  · simp only [top?, hspine]
    refine ⟨h, ?_⟩
    simp [placeOf, hspine]
  have htop : reader.top? = some innermost.container := by simp [top?, hspine]
  rw [htop]
  cases hcontainer : innermost.container with
  | footnote label =>
      obtain ⟨hclosed, hin⟩ := nested_close h stop
      refine ⟨hclosed, ?_⟩
      unfold Nested at h
      rw [hspine] at h hin
      have hfits := h.1.1
      rw [hcontainer] at hfits
      exact hin ▸ hfits
  | _ => exact ⟨h, hout⟩

theorem nested_loosenParent (h : reader.Nested) :
    reader.loosenParent.Nested ∧ placeOf reader.loosenParent.spine = placeOf reader.spine := by
  unfold loosenParent
  split
  · next hspine =>
      unfold Nested at h ⊢
      rw [hspine] at h ⊢
      exact ⟨h, rfl⟩
  · exact ⟨h, rfl⟩

theorem nested_finishList (h : reader.Nested) (stop : Nat) :
    (reader.finishList stop).Nested ∧ placeOf (reader.finishList stop).spine ≠ .list := by
  obtain ⟨hnested, hout⟩ := nested_closeList (nested_finishEmptyItem h) stop
  rw [finishList_eq]
  split
  · obtain ⟨hloosened, hsame⟩ := nested_loosenParent hnested
    exact ⟨hloosened, hsame ▸ hout⟩
  · exact ⟨hnested, hout⟩

theorem nested_continueList (h : reader.Nested) (start : Nat) (marker : Char) (number : Nat) :
    (reader.continueList start marker number).Nested ∧
      placeOf (reader.continueList start marker number).spine = .list := by
  have hempty := nested_finishEmptyItem h
  have hopen {reader : BlockReader} (h : reader.Nested) (hout : placeOf reader.spine ≠ .list) :
      Nested { reader.push (.list true marker number) start with lastBlank := false } ∧
        placeOf (reader.push (.list true marker number) start).spine = .list :=
    ⟨@nested_push _ (.list true marker number) h hout start, rfl⟩
  unfold continueList
  simp only
  split
  · next hspine => exact hopen hempty (by simp [hspine, placeOf])
  · next hspine =>
      split
      · unfold Nested at hempty ⊢
        rw [hspine] at hempty
        exact ⟨hempty, rfl⟩
      · exact hopen (nested_finishList hempty start).1 (nested_finishList hempty start).2
  · exact hopen (nested_finishList hempty start).1 (nested_finishList hempty start).2

theorem nested_openFootnote (h : reader.Nested) (label : Text) (start length : Nat) :
    (reader.openFootnote label start length).Nested := by
  obtain ⟨hfinished, hout⟩ := nested_finishList h start
  obtain ⟨hclosed, hout⟩ := nested_closeFootnote hfinished hout start
  exact ⟨⟨hout, trivial⟩, hclosed⟩

theorem nested_footnote {head : LineHead} {opened : BlockReader} (h : reader.Nested)
    (hopened : footnote? head reader = some opened) : opened.Nested := by
  obtain ⟨label, length, rfl⟩ := exists_openFootnote hopened
  exact nested_openFootnote h _ _ _

theorem nested_openItem (h : reader.Nested) (indent : Nat) (inner : LineHead) (marker : ItemMarker)
    (next : LineHead) : (openItem indent inner marker next reader).1.Nested := by
  obtain ⟨hlist, hin⟩ := nested_continueList h (reader.position + inner.taken - indent)
    marker.marker marker.number
  have hopened := @nested_push _ (.item marker.indent) hlist hin
    (reader.position + inner.taken - indent)
  unfold openItem
  simp only
  split
  · exact hopened
  · split
    · exact hopened
    · split
      · exact nested_append hopened rfl trivial
      · exact hopened

theorem nested_openContainers (h : reader.Nested) (fuel : Nat) (head : LineHead) :
    (openContainers fuel head reader).1.Nested := by
  induction fuel generalizing head reader with
  | zero => exact h
  | succ fuel ih =>
      unfold openContainers
      simp only
      split
      · exact h
      split
      · next hfootnote => exact ih (nested_footnote h hfootnote) _
      split
      · next marker next hmarker =>
          have hitem := nested_openItem h (head.takeUpTo 4).1 (head.takeUpTo 4).2 marker next
          split
          · next hopened =>
              rw [hopened] at hitem
              split
              · exact hitem
              · exact ih hitem _
          · next hopened =>
              rw [hopened] at hitem
              exact hitem
      · split
        · obtain ⟨hfinished, hout⟩ := nested_finishList h reader.position
          exact ih (@nested_push _ .quote hfinished hout _) _
        · exact h

/-! ## Reading blocks -/

end BlockReader

namespace LeafReader

variable {place : Place}

theorem fits_paragraphFrom (h : place ≠ .list) (extensions : Extensions)
    (containers : List Container) (start fuel : Nat) (tokens : List Token) (position : Nat)
    (text : Text) :
    (paragraphFrom extensions containers start fuel tokens position text).leaf.Fits place := by
  induction fuel generalizing tokens position text with
  | zero => exact h
  | succ fuel ih =>
      unfold paragraphFrom
      simp only
      split
      · exact h
      · split
        · exact h
        · exact ih _ _ _

theorem fits_paragraph (h : place ≠ .list) (extensions : Extensions)
    (containers : List Container) (task : Option Token) (position : Nat) (text : Text) :
    (paragraph extensions containers task position text).leaf.Fits place := by
  unfold paragraph
  simp only
  split
  · exact h
  · exact fits_paragraphFrom h _ _ _ _ _ _ _

theorem fits_heading (h : place ≠ .list) (extensions : Extensions) (position level : Nat)
    (text : Text) : (heading extensions position level text).leaf.Fits place := by
  unfold heading
  simp only
  split
  · exact h
  · exact h

end LeafReader

namespace BlockReader

variable {reader : BlockReader}

theorem nested_blankLine (h : reader.Nested) (n : Nat) : (reader.blankLine n).Nested := by
  unfold blankLine
  split
  · exact h
  · next hspine =>
      unfold Nested at h ⊢
      rw [hspine] at h
      exact h
  · exact h

theorem nested_finishLeaf {read : LeafRead} (h : reader.Nested)
    (hfits : read.leaf.Fits (placeOf reader.spine)) : (finishLeaf read reader).Nested :=
  @nested_append reader (.leaf read.leaf read.span) h hfits trivial

theorem nested_readText (h : reader.Nested) (hout : placeOf reader.spine ≠ .list)
    (head : LineHead) : (readText head reader).Nested :=
  @nested_finishLeaf { reader with task := none } _ h (LeafReader.fits_paragraph hout _ _ _ _ _)

theorem nested_readParagraph (h : reader.Nested) (hout : placeOf reader.spine ≠ .list) (fuel : Nat)
    (head : LineHead) : (readParagraph fuel head reader).Nested := by
  induction fuel generalizing head reader with
  | zero => exact h
  | succ fuel ih =>
      unfold readParagraph
      simp only
      split
      · exact nested_readText h hout head
      · split
        · exact h
        · refine ih ?_ ?_ _
          · exact h
          · exact hout

theorem nested_readLeaf (h : reader.Nested) (head : LineHead) : (readLeaf head reader).Nested := by
  obtain ⟨hfinished, hout⟩ := nested_finishList h reader.position
  have hfinish (read : LeafRead)
      (hfits : read.leaf.Fits (placeOf (reader.finishList reader.position).spine)) :
      (finishLeaf read (reader.finishList reader.position)).Nested :=
    nested_finishLeaf hfinished hfits
  unfold readLeaf
  simp only
  split
  · exact nested_readText hfinished hout _
  split
  · refine nested_finishLeaf ?_ ?_
    · exact hfinished
    · exact hout
  split
  · exact hfinish _ hout
  split
  · exact hfinish _ hout
  split
  · exact hfinish _ hout
  split
  · exact hfinish _ (LeafReader.fits_heading hout _ _ _ _)
  split
  · exact hfinish _ hout
  · exact nested_readParagraph hfinished hout _ _

theorem nested_readBlock (h : reader.Nested) : reader.readBlock.Nested := by
  rcases hcontinues : LineHead.continuation reader.containers (LineHead.start reader.rest) with
    ⟨n, head⟩
  have hopened := nested_openContainers (nested_closeTo h n reader.position)
    ((reader.closeTo n reader.position).rest.length + 1) head
  rcases hfound : openContainers ((reader.closeTo n reader.position).rest.length + 1) head
    (reader.closeTo n reader.position) with ⟨opened, head?⟩
  rw [hfound] at hopened
  simp only [readBlock, hcontinues, hfound]
  cases head? with
  | none => exact hopened
  | some next =>
      simp only
      split
      · exact nested_blankLine hopened _
      · exact nested_readLeaf hopened _

theorem nested_readBlocks (h : reader.Nested) (fuel : Nat) : (readBlocks fuel reader).Nested := by
  induction fuel generalizing reader with
  | zero => exact h
  | succ fuel ih =>
      rw [readBlocks]
      split
      · exact h
      · exact ih (nested_readBlock h)

theorem spine_closeTo (reader : BlockReader) (stop : Nat) : (reader.closeTo 0 stop).spine = [] := by
  have hclose (steps : List Nat) : reader.spine.length ≤ steps.length →
      (steps.foldl (fun reader _ => reader.close stop) reader).spine = [] := by
    induction steps generalizing reader with
    | nil => simp
    | cons step steps ih =>
        intro hlength
        refine ih (reader.close stop) ?_
        obtain ⟨spine, blocks, hspine, heq⟩ := close_eq stop reader
        have htail := congrArg List.length hspine
        simp only [List.length_map, List.length_tail, List.length_cons] at htail hlength
        rw [heq]
        simp only
        omega
  exact hclose _ (by simp)

/-- The blocks of a source are nested, and all of its containers are closed. -/
theorem nested_readSource (extensions : Extensions) (source : Text) :
    BlockTree.AllNested .free (readSource extensions source).blocks.reverse ∧
      (readSource extensions source).spine = [] := by
  have hspine : (readSource extensions source).spine = [] := spine_closeTo _ _
  have hnested : (readSource extensions source).Nested := by
    refine nested_closeTo (nested_readBlocks ?_ _) 0 _
    exact trivial
  unfold Nested at hnested
  rw [hspine, SpineNested] at hnested
  refine ⟨?_, hspine⟩
  simpa [BlockTree.allNested_iff] using hnested

end BlockReader

end Canonmark.Source
