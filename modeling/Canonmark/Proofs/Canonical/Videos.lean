import Canonmark.Canonical.Source
import Canonmark.Proofs.Canonical.Stable
import Canonmark.Proofs.Document.Videos

/-!
# Videos in canonical documents

In a canonical document a video that stands in a quote directly is all that its paragraph holds.
In an item with a quote around it, it has a line of its paragraph to itself: the paragraphs of
items are not split. There are no videos anywhere else.
-/

namespace Canonmark

open Inline (VideoFree AllVideoFree VideoAlone VideoLines)

def VideoPlace.Alone : VideoPlace → List Inline → Prop
  | .outside => AllVideoFree
  | .item => VideoLines
  | .quote => VideoAlone

namespace Canonical

variable {known : Text → Bool}

theorem isVideo_toldLeaf (known : Text → Bool) (content : Leaf) :
    (toldLeaf known content).isVideo = content.isVideo := by
  cases content <;> rfl

mutual

theorem videoFree_elements : (node : Inline) → node.VideoFree → AllVideoFree (elements node)
  | .leaf _, h => by
      rw [elements, Inline.allVideoFree_cons]
      exact ⟨h, Inline.allVideoFree_nil⟩
  | .node wrapper children, h => by
      rw [elements]
      split
      · simp [Leaf.isVideo, videoFree_elementsOf children ((Inline.videoFree_node _ _).mp h),
          Inline.allVideoFree_nil]
      · exact (Inline.allVideoFree_cons _ _).mpr ⟨h, Inline.allVideoFree_nil⟩

theorem videoFree_elementsOf : (content : List Inline) → AllVideoFree content →
    AllVideoFree (elementsOf content)
  | [], _ => Inline.allVideoFree_nil
  | node :: rest, h => by
      obtain ⟨hnode, hrest⟩ := (Inline.allVideoFree_cons node rest).mp h
      rw [elementsOf, Inline.allVideoFree_append]
      exact ⟨videoFree_elements node hnode, videoFree_elementsOf rest hrest⟩

end

mutual

theorem videoFree_told : (node : Inline) → node.VideoFree → (told known node).VideoFree
  | .leaf content, h => by
      rw [told_leaf, Inline.videoFree_leaf, isVideo_toldLeaf]
      exact (Inline.videoFree_leaf content).mp h
  | .node wrapper children, h => by
      rw [told_node, Inline.videoFree_node]
      exact videoFree_toldAll 0 children ((Inline.videoFree_node _ _).mp h)

theorem videoFree_toldAll (depth : Nat) : (content : List Inline) → AllVideoFree content →
    AllVideoFree (toldAll known depth content)
  | [], _ => by
      rw [toldAll_nil]
      exact Inline.allVideoFree_nil
  | node :: rest, h => by
      obtain ⟨hnode, hrest⟩ := (Inline.allVideoFree_cons node rest).mp h
      have hfirst := videoFree_told node hnode
      rw [toldAll_cons, Inline.allVideoFree_append]
      refine ⟨?_, videoFree_toldAll _ rest hrest⟩
      split
      · exact (Inline.allVideoFree_cons _ _).mpr ⟨hfirst, Inline.allVideoFree_nil⟩
      · exact videoFree_elements _ hfirst

end

theorem videoAlone_toldAll {content : List Inline} (h : VideoAlone content) (depth : Nat) :
    VideoAlone (toldAll known depth content) := by
  rcases h with hfree | ⟨url, rfl⟩
  · exact .inl (videoFree_toldAll depth content hfree)
  · refine .inr ⟨url, ?_⟩
    rw [toldAll_cons, toldAll_nil, List.append_nil]
    split <;> rfl

theorem videoLines_toldAll {content : List Inline} (h : VideoLines content) (depth : Nat) :
    VideoLines (toldAll known depth content) := by
  induction h generalizing depth with
  | line h => exact .line (videoAlone_toldAll h depth)
  | @cons line rest h _ ih =>
      have hbreak (behind : Nat) : toldAll known behind (.leaf .softBreak :: rest) =
          .leaf .softBreak :: toldAll known behind rest := by
        rw [toldAll_cons]
        have hsame : depthAfter behind (.leaf .softBreak) = behind := rfl
        rw [hsame]
        split <;> rfl
      rw [toldAll_append, hbreak]
      exact .cons (videoAlone_toldAll h depth) (ih _)

end Canonical

namespace VideoParagraph

theorem videoFree_of_lines {content : List Inline} (h : VideoLines content) :
    ∀ node ∈ content, isVideo node = false → node.VideoFree := by
  have halone {line : List Inline} (h : VideoAlone line) :
      ∀ node ∈ line, isVideo node = false → node.VideoFree := by
    rcases h with hfree | ⟨url, rfl⟩
    · exact fun node hmem _ => hfree node hmem
    · intro node hmem hother
      rw [List.mem_singleton.mp hmem] at hother
      cases hother
  induction h with
  | line h => exact halone h
  | cons h _ ih =>
      rw [List.forall_mem_append, List.forall_mem_cons]
      exact ⟨halone h, fun _ => (Inline.videoFree_leaf _).mpr rfl, ih⟩

theorem allVideoFree_of_any {content : List Inline}
    (h : ∀ node ∈ content, isVideo node = false → node.VideoFree)
    (hnone : content.any isVideo = false) : AllVideoFree content := fun node hmem =>
  h node hmem (by simpa using List.any_eq_false.mp hnone node hmem)

open VideoPlace (Alone)

theorem PartIs.alone {content : List Inline} {paragraphs : List Block}
    (h : PartIs content paragraphs) (hfree : AllVideoFree content) :
    Block.AllVideosFit Alone .quote paragraphs := by
  cases h with
  | breaks => trivial
  | text =>
      rw [Inline.allVideoFree_append, Inline.allVideoFree_append] at hfree
      exact ⟨.inl hfree.1.2, trivial⟩

theorem SplitsInto.alone {content : List Inline} {paragraphs : List Block}
    (h : SplitsInto content paragraphs)
    (hnodes : ∀ node ∈ content, isVideo node = false → node.VideoFree) :
    Block.AllVideosFit Alone .quote paragraphs := by
  induction h with
  | part hnone hpart => exact hpart.alone (allVideoFree_of_any hnodes hnone)
  | video url hnone hpart _ ih =>
      rw [List.forall_mem_append, List.forall_mem_cons] at hnodes
      obtain ⟨hfront, -, hbehind⟩ := hnodes
      exact Block.allVideosFit_append.mpr
        ⟨hpart.alone (allVideoFree_of_any hfront hnone), .inr ⟨url, rfl⟩, ih hbehind⟩

theorem alone_splitBlock {content : List Inline} (h : VideoLines content) :
    Block.AllVideosFit Alone .quote (splitBlock (.paragraph content)) := by
  have hnodes := videoFree_of_lines h
  rw [splitBlock]
  split
  · exact (splitsInto_splitFrom [] content rfl).alone hnodes
  · next hkept =>
      refine ⟨?_, trivial⟩
      rw [Bool.and_eq_true, decide_eq_true_eq, not_and, Bool.not_eq_true] at hkept
      by_cases hseveral : 1 < content.length
      · exact .inl (allVideoFree_of_any hnodes (hkept hseveral))
      · cases content with
        | nil => exact .inl Inline.allVideoFree_nil
        | cons node rest =>
            cases rest with
            | nil =>
                cases hfound : isVideo node with
                | false => exact .inl (allVideoFree_of_any hnodes (by simp [hfound]))
                | true =>
                    obtain ⟨url, rfl⟩ := eq_video hfound
                    exact .inr ⟨url, rfl⟩
            | cons second rest => exact absurd (by simp) hseveral

end VideoParagraph

namespace Canonical

open VideoPlace (OnLines Alone)
open VideoParagraph (splitBlock)

def settled (place : VideoPlace) (block : Block) : List Block :=
  if place = .quote then splitBlock block else [block]

theorem settled_quote (blocks : List Block) :
    blocks.flatMap (settled .quote) = VideoParagraph.split blocks := rfl

theorem settled_other {place : VideoPlace} (h : place ≠ .quote) (blocks : List Block) :
    blocks.flatMap (settled place) = blocks := by
  have hone : settled place = fun block => [block] := funext fun block => if_neg h
  rw [hone, List.flatMap_singleton']

theorem settled_single {place : VideoPlace} {block : Block} (h : splitBlock block = [block]) :
    settled place block = [block] := by
  unfold settled
  split
  · exact h
  · rfl

theorem alone_paragraph {place : VideoPlace} {content : List Inline} (h : OnLines place content) :
    Block.AllVideosFit Alone place (settled place (.paragraph (toldAll known 0 content))) := by
  cases place with
  | outside => exact ⟨videoFree_toldAll 0 content h, trivial⟩
  | item => exact ⟨videoLines_toldAll h 0, trivial⟩
  | quote => exact VideoParagraph.alone_splitBlock (videoLines_toldAll h 0)

mutual

theorem alone_block (place : VideoPlace) : (block : Block) → block.VideosFit OnLines place →
    Block.AllVideosFit Alone place (settled place (toldBlock known block))
  | .paragraph content, h => by
      rw [toldBlock_paragraph]
      exact alone_paragraph h
  | .heading level content, h => by
      rw [toldBlock_heading, settled_single rfl]
      exact ⟨videoFree_toldAll 0 content h, trivial⟩
  | .quote depth children, h => by
      rw [toldBlock_quote, settled_single rfl, ← settled_quote]
      exact ⟨alone_blocks .quote children h, trivial⟩
  | .list kind tight items, h => by
      rw [toldBlock_list, settled_single rfl]
      exact ⟨alone_items place.inItem (by cases place <;> decide) items h, trivial⟩
  | .verbatim content, _ => by
      rw [toldBlock_verbatim, settled_single rfl]
      exact ⟨trivial, trivial⟩

theorem alone_blocks (place : VideoPlace) : (blocks : List Block) →
    Block.AllVideosFit OnLines place blocks →
      Block.AllVideosFit Alone place ((toldBlocks known blocks).flatMap (settled place))
  | [], _ => by
      rw [toldBlocks_nil]
      trivial
  | first :: rest, h => by
      rw [toldBlocks_cons, List.flatMap_cons, Block.allVideosFit_append]
      exact ⟨alone_block place first h.1, alone_blocks place rest h.2⟩

theorem alone_items (place : VideoPlace) (hinItem : place ≠ .quote) :
    (items : List (List Block)) → Block.ItemVideosFit OnLines place items →
      Block.ItemVideosFit Alone place (toldItems known items)
  | [], _ => by
      rw [toldItems_nil]
      trivial
  | first :: rest, h => by
      have hblocks : Block.AllVideosFit Alone place
          ((toldBlocks known first).flatMap (settled place)) := alone_blocks place first h.1
      rw [settled_other hinItem] at hblocks
      rw [toldItems_cons]
      exact ⟨hblocks, alone_items place hinItem rest h.2⟩

end

/--
Every video of a canonical document stands directly in a paragraph with a quote around it. In a
quote itself, it is all that the paragraph holds; in an item, it fills a line of it.
-/
theorem alone_document (scope : Scope) {before : Document}
    (h : Block.AllVideosFit OnLines .outside before) :
    Block.AllVideosFit Alone .outside (document scope before).value := by
  have hblocks := @alone_blocks scope.knows .outside before h
  rw [settled_other (by decide)] at hblocks
  rwa [document_value]

theorem alone_document_read (settings : Settings) (scope : Scope) (source : Text) :
    Block.AllVideosFit Alone .outside (document scope (read settings source)).value := by
  refine alone_document scope ?_
  unfold read
  simp only
  split
  · exact Document.onLines_ofEvents _ _ _
  · exact Document.onLines_ofEvents _ _ _

end Canonical

end Canonmark
