import Canonmark.Canonical.VideoParagraph
import Canonmark.Proofs.Document.Leaves
import Mathlib.Data.List.TakeWhile

/-!
# Parts of paragraphs

A paragraph of a quote is split around its videos. Nothing is lost but the soft breaks at the
edges of the parts, and nothing changes its place.
-/

namespace Canonmark.VideoParagraph

/-- A part, and the paragraph of what is left of it without the soft breaks at its edges. -/
inductive PartIs : List Inline → List Block → Prop where
  | breaks (n : Nat) : PartIs (List.replicate n (.leaf .softBreak)) []
  | text (before behind : Nat) {content : List Inline} : content ≠ [] →
      PartIs (List.replicate before (.leaf .softBreak) ++ content ++
        List.replicate behind (.leaf .softBreak)) [.paragraph content]

/-- Each video gets a paragraph; what stands between two of them is a part. -/
inductive SplitsInto : List Inline → List Block → Prop where
  | part {content : List Inline} {paragraphs : List Block} :
      content.any isVideo = false → PartIs content paragraphs → SplitsInto content paragraphs
  | video (url : Text) {content rest : List Inline} {paragraphs others : List Block} :
      content.any isVideo = false → PartIs content paragraphs → SplitsInto rest others →
        SplitsInto (content ++ .leaf (.video url) :: rest)
          (paragraphs ++ .paragraph [.leaf (.video url)] :: others)

/-- Some paragraphs that hold a video are split, all other blocks are kept. -/
inductive Isolates : List Block → List Block → Prop where
  | nil : Isolates [] []
  | kept (block : Block) {rest others : List Block} :
      Isolates rest others → Isolates (block :: rest) (block :: others)
  | split {content : List Inline} {paragraphs rest others : List Block} :
      content.any isVideo = true → SplitsInto content paragraphs → Isolates rest others →
        Isolates (.paragraph content :: rest) (paragraphs ++ others)

theorem eq_video {node : Inline} (h : isVideo node = true) :
    ∃ url, node = .leaf (.video url) := by
  cases node with
  | leaf content => cases content <;> first | exact ⟨_, rfl⟩ | cases h
  | node => cases h

theorem eq_softBreak {node : Inline} (h : isSoftBreak node = true) : node = .leaf .softBreak := by
  cases node with
  | leaf content => cases content <;> first | rfl | cases h
  | node => cases h

theorem takeWhile_isSoftBreak (content : List Inline) :
    content.takeWhile isSoftBreak =
      List.replicate (content.takeWhile isSoftBreak).length (.leaf .softBreak) := by
  refine List.eq_replicate_iff.mpr ⟨rfl, fun node hmem => ?_⟩
  exact eq_softBreak (List.mem_takeWhile_imp hmem)

theorem partIs_part (content : List Inline) : PartIs content (part content) := by
  let behindFirst := content.dropWhile isSoftBreak
  let kept := (behindFirst.reverse.dropWhile isSoftBreak).reverse
  let last := (behindFirst.reverse.takeWhile isSoftBreak).reverse
  have hwhole : content = content.takeWhile isSoftBreak ++ kept ++ last := by
    rw [List.append_assoc, ← List.reverse_append, List.takeWhile_append_dropWhile,
      List.reverse_reverse, List.takeWhile_append_dropWhile]
  have hfirst := takeWhile_isSoftBreak content
  have hlast : last = List.replicate last.length (.leaf .softBreak) := by
    have hreversed := takeWhile_isSoftBreak behindFirst.reverse
    rw [← List.length_reverse] at hreversed
    exact (congrArg List.reverse hreversed).trans List.reverse_replicate
  have hparted : part content = if kept.isEmpty then [] else [.paragraph kept] := rfl
  rw [hparted]
  rw [hfirst, hlast] at hwhole
  split
  · next hempty =>
      rw [List.isEmpty_iff.mp hempty, List.append_nil, List.replicate_append_replicate] at hwhole
      rw [hwhole]
      exact .breaks _
  · next hsome =>
      rw [hwhole]
      exact .text _ _ fun hnone => hsome (List.isEmpty_iff.mpr hnone)

theorem splitsInto_splitFrom (kept content : List Inline) (hfree : kept.any isVideo = false) :
    SplitsInto (kept.reverse ++ content) (splitFrom kept content) := by
  have hfree' : kept.reverse.any isVideo = false := by rw [List.any_reverse, hfree]
  induction content generalizing kept with
  | nil =>
      rw [List.append_nil]
      exact .part hfree' (partIs_part _)
  | cons node rest ih =>
      rw [splitFrom]
      split
      · next hvideo =>
          obtain ⟨url, rfl⟩ := eq_video hvideo
          exact .video url hfree' (partIs_part _) (ih [] rfl rfl)
      · next hother =>
          have hlonger : (node :: kept).any isVideo = false := by
            rw [List.any_cons, hfree, Bool.or_false]
            exact eq_false_of_ne_true hother
          have hstep := ih (node :: kept) hlonger (by rw [List.any_reverse, hlonger])
          rwa [List.reverse_cons, List.append_assoc, List.singleton_append] at hstep

theorem isolates_split (blocks : List Block) : Isolates blocks (split blocks) := by
  induction blocks with
  | nil => exact .nil
  | cons block rest ih =>
      rw [split, List.flatMap_cons]
      cases block with
      | paragraph content =>
          rw [splitBlock]
          split
          · next hfound =>
              rw [Bool.and_eq_true] at hfound
              exact .split hfound.2 (splitsInto_splitFrom [] content rfl) ih
          · exact .kept _ ih
      | _ => exact .kept _ ih

theorem splitBlock_free {content : List Inline} (hfree : content.any isVideo = false) :
    splitBlock (.paragraph content) = [.paragraph content] := by
  rw [splitBlock, hfree, Bool.and_false, if_neg (by decide)]

theorem split_append (first second : List Block) :
    split (first ++ second) = split first ++ split second := List.flatMap_append

theorem split_single (block : Block) : split [block] = splitBlock block := List.flatMap_singleton ..

theorem PartIs.split {content : List Inline} {paragraphs : List Block}
    (h : PartIs content paragraphs) (hfree : content.any isVideo = false) :
    split paragraphs = paragraphs := by
  cases h with
  | breaks => rfl
  | text =>
      rw [List.any_append, List.any_append, Bool.or_eq_false_iff, Bool.or_eq_false_iff] at hfree
      rw [split_single, splitBlock_free hfree.1.2]

theorem SplitsInto.split {content : List Inline} {paragraphs : List Block}
    (h : SplitsInto content paragraphs) : split paragraphs = paragraphs := by
  induction h with
  | part hfree hpart => exact hpart.split hfree
  | video url hfree hpart _ ih =>
      rw [split_append, hpart.split hfree, ← List.singleton_append, split_append, ih, split_single]
      rfl

theorem split_splitBlock (block : Block) : split (splitBlock block) = splitBlock block := by
  cases block with
  | paragraph content =>
      by_cases hfound : (1 < content.length && content.any isVideo) = true
      · rw [splitBlock, if_pos hfound]
        exact (splitsInto_splitFrom [] content rfl).split
      · have hkept : splitBlock (.paragraph content) = [.paragraph content] := by
          rw [splitBlock, if_neg hfound]
        rw [hkept, split_single, hkept]
  | _ => rfl

theorem split_split (blocks : List Block) : split (split blocks) = split blocks := by
  induction blocks with
  | nil => rfl
  | cons block rest ih =>
      rw [← List.singleton_append, split_append, split_append, ih, split_single, split_splitBlock]

structure LosesBreaks (before after : List Leaf) : Prop where
  sublist : after.Sublist before
  others : after.filter (· ≠ .softBreak) = before.filter (· ≠ .softBreak)

namespace LosesBreaks

theorem refl (leaves : List Leaf) : LosesBreaks leaves leaves := ⟨.refl leaves, rfl⟩

theorem trans {first second third : List Leaf} (h : LosesBreaks first second)
    (h' : LosesBreaks second third) : LosesBreaks first third :=
  ⟨h'.sublist.trans h.sublist, h'.others.trans h.others⟩

theorem append {first first' second second' : List Leaf} (h : LosesBreaks first first')
    (h' : LosesBreaks second second') : LosesBreaks (first ++ second) (first' ++ second') where
  sublist := h.sublist.append h'.sublist
  others := by rw [List.filter_append, List.filter_append, h.others, h'.others]

theorem breaks (n : Nat) : LosesBreaks (List.replicate n .softBreak) [] where
  sublist := List.nil_sublist _
  others := by rw [List.filter_replicate]; rfl

theorem filterMap_eq {α : Type} {before after : List Leaf} (h : LosesBreaks before after)
    {read : Leaf → Option α} (hnone : read .softBreak = none) :
    after.filterMap read = before.filterMap read := by
  have hothers (leaves : List Leaf) :
      (leaves.filter (· ≠ .softBreak)).filterMap read = leaves.filterMap read := by
    rw [List.filterMap_filter]
    refine congrArg (List.filterMap · leaves) (funext fun leaf => ?_)
    by_cases hsame : leaf = .softBreak
    · rw [hsame, hnone]; rfl
    · rw [if_pos (by simpa using hsame)]
  rw [← hothers after, h.others, hothers before]

end LosesBreaks

theorem PartIs.leaves {content : List Inline} {paragraphs : List Block}
    (h : PartIs content paragraphs) :
    LosesBreaks (Inline.leavesOf content) (Block.leavesOf paragraphs) := by
  cases h with
  | breaks n =>
      rw [Inline.leavesOf_replicate]
      exact .breaks n
  | text before behind =>
      rw [Inline.leavesOf_append, Inline.leavesOf_append, Inline.leavesOf_replicate,
        Inline.leavesOf_replicate]
      exact ((LosesBreaks.breaks before).append (.refl _)).append (.breaks behind)

theorem SplitsInto.leaves {content : List Inline} {paragraphs : List Block}
    (h : SplitsInto content paragraphs) :
    LosesBreaks (Inline.leavesOf content) (Block.leavesOf paragraphs) := by
  induction h with
  | part _ hpart => exact hpart.leaves
  | video url _ hpart _ ih =>
      rw [Inline.leavesOf_append, Block.leavesOf_append]
      exact hpart.leaves.append ((LosesBreaks.refl [.video url]).append ih)

theorem Isolates.leaves {before after : List Block} (h : Isolates before after) :
    LosesBreaks (Block.leavesOf before) (Block.leavesOf after) := by
  induction h with
  | nil => exact .refl []
  | kept block _ ih => exact (LosesBreaks.refl block.leaves).append ih
  | split _ hparagraphs _ ih =>
      rw [Block.leavesOf_append]
      exact hparagraphs.leaves.append ih

end Canonmark.VideoParagraph
