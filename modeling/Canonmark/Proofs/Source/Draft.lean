import Canonmark.Proofs.Source.EventShape
import Mathlib.Logic.Function.Iterate

/-!
# Drafts of outlines

What a reader of blocks has found so far is a draft of the outline of its source: the outlines of
closed blocks and, for each open container, what it is and the outlines of what it holds.
-/

namespace Canonmark.Source

/-- What an open container will be, and the outlines of what it holds. -/
inductive Frame where
  | quote (children : List Outline)
  | list (kind : ListKind) (items : List Outline)
  | item (children : List Outline)
  | footnote

namespace Frame

def append (found : List Outline) : Frame → Frame
  | .quote children => .quote (children ++ found)
  | .list kind items => .list kind (items ++ found)
  | .item children => .item (children ++ found)
  | .footnote => .footnote

def outline : Frame → List Outline
  | .quote children => [.quote children]
  | .list kind items => [.list kind items]
  | .item children => [.item children]
  | .footnote => []

theorem append_append (first second : List Outline) (frame : Frame) :
    (frame.append first).append second = frame.append (first ++ second) := by
  cases frame with
  | footnote => rfl
  | _ => simp only [append, List.append_assoc]

end Frame

structure Draft where
  blocks : List Outline := []
  /-- Innermost first. -/
  frames : List Frame := []

namespace Draft

def append (found : List Outline) (draft : Draft) : Draft :=
  match draft.frames with
  | [] => { draft with blocks := draft.blocks ++ found }
  | innermost :: frames => { draft with frames := innermost.append found :: frames }

def push (frame : Frame) (draft : Draft) : Draft := { draft with frames := frame :: draft.frames }

def close (draft : Draft) : Draft :=
  match draft.frames with
  | [] => draft
  | innermost :: frames => { draft with frames := frames }.append innermost.outline

def closeTo (depth : Nat) (draft : Draft) : Draft := close^[draft.frames.length - depth] draft

variable {draft : Draft}

@[simp] theorem length_append (found : List Outline) (draft : Draft) :
    (draft.append found).frames.length = draft.frames.length := by
  unfold append
  split
  · next h => simp [h]
  · next h => simp [h]

theorem append_append (first second : List Outline) (draft : Draft) :
    (draft.append first).append second = draft.append (first ++ second) := by
  rcases h : draft.frames with - | ⟨innermost, frames⟩
  · simp [append, h]
  · simp [append, h, Frame.append_append]

@[simp] theorem length_close (draft : Draft) :
    draft.close.frames.length = draft.frames.length - 1 := by
  unfold close
  split
  · next h => simp [h]
  · next h => simp [h]

theorem close_push_append (frame : Frame) (found : List Outline) (draft : Draft) :
    ((draft.push frame).append found).close = draft.append (frame.append found).outline := rfl

theorem length_iterate_close (n : Nat) (draft : Draft) :
    (close^[n] draft).frames.length = draft.frames.length - n := by
  induction n generalizing draft with
  | zero => rfl
  | succ n ih =>
      rw [Function.iterate_succ_apply, ih, length_close]
      omega

theorem length_closeTo (depth : Nat) (draft : Draft) :
    (draft.closeTo depth).frames.length = min draft.frames.length depth := by
  rw [closeTo, length_iterate_close]
  omega

theorem closeTo_of_le {depth : Nat} (h : draft.frames.length ≤ depth) :
    draft.closeTo depth = draft := by
  rw [closeTo, Nat.sub_eq_zero_of_le h]
  rfl

theorem closeTo_closeTo {depth deeper : Nat} (h : depth ≤ deeper) (draft : Draft) :
    (draft.closeTo deeper).closeTo depth = draft.closeTo depth := by
  rw [closeTo, length_closeTo, closeTo, closeTo, ← Function.iterate_add_apply]
  congr 1
  omega

theorem closeTo_of_succ {depth : Nat} (h : draft.frames.length = depth + 1) :
    draft.closeTo depth = draft.close := by
  rw [closeTo, h, Nat.add_sub_cancel_left]
  rfl

end Draft

namespace BlockTree

theorem outline_tightenLeaf (source : Text) (place : Place) (tree : BlockTree) :
    outline source place tree.tightenLeaf = outline source place tree := by
  cases tree with
  | leaf leaf span => cases leaf <;> rfl
  | node container span children => rfl

@[simp] theorem outline_tighten (source : Text) (place : Place) (tree : BlockTree) :
    outline source place tree.tighten = outline source place tree := by
  cases tree with
  | leaf leaf span => rfl
  | node container span children =>
      cases container with
      | item indent =>
          simp [tighten, outline, outlines_eq, List.flatMap_map, outline_tightenLeaf]
      | _ => rfl

theorem span_tighten (tree : BlockTree) : tree.tighten.span = tree.span := by
  cases tree with
  | leaf leaf span => rfl
  | node container span children => cases container <;> rfl

end BlockTree

namespace BlockReader

open BlockTree (outlines listNumber)

/-- Where the first item of an open list starts; the open container in it starts at `inner`. -/
def firstStart (inner : Option Nat) (children : List BlockTree) : Option Nat :=
  (children.getLast?.map (·.span.start)).or inner

def frame (source : Text) (inner : Option Nat) (container : OpenContainer) : Frame :=
  match container.container with
  | .quote => .quote (outlines source .free container.children.reverse)
  | .list _ marker number =>
      .list (listKind source (listNumber marker number) (firstStart inner container.children))
        (outlines source .list container.children.reverse)
  | .item _ => .item (outlines source .item container.children.reverse)
  | .footnote _ => .footnote

def framesFrom (source : Text) (inner : Option Nat) : List OpenContainer → List Frame
  | [] => []
  | innermost :: spine =>
      frame source inner innermost :: framesFrom source (some innermost.start) spine

def draft (source : Text) (reader : BlockReader) : Draft :=
  ⟨outlines source .free reader.blocks.reverse, framesFrom source none reader.spine⟩

variable {source : Text} {reader : BlockReader}

@[simp] theorem length_framesFrom (inner : Option Nat) (spine : List OpenContainer) :
    (framesFrom source inner spine).length = spine.length := by
  induction spine generalizing inner with
  | nil => rfl
  | cons innermost spine ih => simp [framesFrom, ih]

@[simp] theorem length_draft (reader : BlockReader) :
    (reader.draft source).frames.length = reader.spine.length := length_framesFrom _ _

theorem outline_node (inner : Option Nat) (container : OpenContainer) (place : Place) (stop : Nat)
    {items : List BlockTree}
    (hitems : outlines source container.container.place items
      = outlines source container.container.place container.children.reverse)
    (hstart : items.head?.map (·.span.start) = firstStart inner container.children) :
    BlockTree.outline source place (.node container.container (.upTo container.start stop) items)
      = (frame source inner container).outline := by
  obtain ⟨container, start, children⟩ := container
  cases container with
  | quote => exact congrArg (fun found => [Outline.quote found]) hitems
  | list tight marker number =>
      simp only [BlockTree.outline, frame, Frame.outline]
      rw [← hstart]
      exact congrArg (fun found => [Outline.list _ found]) hitems
  | item indent => exact congrArg (fun found => [Outline.item found]) hitems
  | footnote label => rfl

theorem outline_leaf_append {innermost : OpenContainer} {inner : Option Nat} (block : LeafBlock)
    (span : Span) (h : innermost.container.place ≠ .list) :
    frame source inner { innermost with children := .leaf block span :: innermost.children }
      = (frame source inner innermost).append
          (block.outline innermost.container.place) := by
  obtain ⟨container, start, children⟩ := innermost
  cases container with
  | list tight marker number => exact absurd rfl h
  | _ => simp [frame, Frame.append, BlockTree.outlines, BlockTree.outline, Container.place]

theorem outline_node_append {inner : Option Nat} (outer : OpenContainer) {node : BlockTree}
    {found : List Outline} (hfound : ∀ place, node.outline source place = found) :
    frame source inner { outer with children := node :: outer.children }
      = (frame source (some node.span.start) outer).append found := by
  obtain ⟨container, start, children⟩ := outer
  cases container with
  | footnote label => rfl
  | list tight marker number =>
      have hstart : firstStart inner (node :: children)
          = firstStart (some node.span.start) children := by
        cases children with
        | nil => rfl
        | cons child children =>
            rw [firstStart, firstStart, List.getLast?_cons_cons,
              List.getLast?_eq_some_getLast (List.cons_ne_nil child children)]
            rfl
      simp [frame, Frame.append, BlockTree.outlines, hfound, hstart]
  | _ => simp [frame, Frame.append, BlockTree.outlines, hfound]

theorem draft_append_leaf (source : Text) (block : LeafBlock) (span : Span)
    (h : placeOf reader.spine ≠ .list) :
    (reader.append (.leaf block span)).draft source
      = (reader.draft source).append (block.outline (placeOf reader.spine)) := by
  unfold append draft Draft.append
  rcases hspine : reader.spine with - | ⟨innermost, spine⟩
  · simp [framesFrom, BlockTree.outlines, BlockTree.outline, placeOf]
  · rw [hspine] at h
    simp only [framesFrom, outline_leaf_append block span h]
    rfl

theorem draft_close (stop : Nat) (reader : BlockReader) :
    (reader.close stop).draft source = (reader.draft source).close := by
  have hnode (innermost : OpenContainer) (spine : List OpenContainer) (items : List BlockTree)
      (empty : Option Nat)
      (hitems : outlines source innermost.container.place items
        = outlines source innermost.container.place innermost.children.reverse)
      (hstart : items.head?.map (·.span.start) = firstStart none innermost.children) :
      (({ reader with spine := spine, emptyItem := empty } : BlockReader).append
          (.node innermost.container (.upTo innermost.start stop) items)).draft source
        = Draft.append (frame source none innermost).outline
            ⟨outlines source .free reader.blocks.reverse,
              framesFrom source (some innermost.start) spine⟩ := by
    have hfound (place : Place) := outline_node none innermost place stop hitems hstart
    unfold append draft Draft.append
    cases spine with
    | nil => simp [framesFrom, BlockTree.outlines, hfound]
    | cons outer spine =>
        simp only [framesFrom, outline_node_append outer hfound]
        rfl
  unfold close
  split
  · next hspine => simp [draft, Draft.close, hspine, framesFrom]
  next container start children spine hspine =>
  have hclosed : (reader.draft source).close
      = Draft.append (frame source none ⟨container, start, children⟩).outline
          ⟨outlines source .free reader.blocks.reverse, framesFrom source (some start) spine⟩ := by
    simp [draft, Draft.close, hspine, framesFrom]
  rw [hclosed]
  simp only
  split
  · refine hnode ⟨_, start, children⟩ spine _ none ?_ ?_
    · simp [BlockTree.outlines_eq, ← List.map_reverse, List.flatMap_map]
    · simp [firstStart, Function.comp_def, BlockTree.span_tighten]
  · refine hnode ⟨_, start, children⟩ spine _ reader.emptyItem rfl ?_
    simp [firstStart]

theorem closeTo_eq (depth stop : Nat) (reader : BlockReader) :
    reader.closeTo depth stop
      = (close stop)^[reader.spine.length - depth] reader := by
  have hclose (steps : List Nat) (reader : BlockReader) :
      steps.foldl (fun reader _ => reader.close stop) reader
        = (close stop)^[steps.length] reader := by
    induction steps generalizing reader with
    | nil => rfl
    | cons step steps ih =>
        rw [List.foldl_cons, ih, List.length_cons, Function.iterate_succ_apply]
  rw [closeTo, hclose, List.length_range]

theorem draft_closeTo (depth stop : Nat) (reader : BlockReader) :
    (reader.closeTo depth stop).draft source = (reader.draft source).closeTo depth := by
  rw [closeTo_eq, Draft.closeTo, length_draft]
  generalize reader.spine.length - depth = n
  induction n generalizing reader with
  | zero => rfl
  | succ n ih =>
      rw [Function.iterate_succ_apply, ih, draft_close, Function.iterate_succ_apply]

/-- Whether a list is loose does not matter. -/
theorem draft_loosenParent (reader : BlockReader) :
    reader.loosenParent.draft source = reader.draft source := by
  unfold loosenParent
  split
  · next hspine => simp [draft, hspine, framesFrom, frame]
  · rfl

end BlockReader

end Canonmark.Source
