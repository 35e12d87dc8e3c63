import Canonmark.Proofs.Canonical.Parts
import Mathlib.Data.List.DropRight
import Mathlib.Data.List.Forall2

/-!
# Blocks regrouped around videos

Paragraphs with a video and other content are split around their videos, and all other blocks are
kept. Nothing but soft breaks at the edges of parts is lost, and nothing changes its place.
-/

namespace Canonmark.VideoParagraph

variable {content kept : List Inline} {paragraphs blocks : List Block}

/-- What a paragraph holds, without its soft breaks; another block is taken as it is. -/
def blockStream : Block → List (Inline ⊕ Block)
  | .paragraph content => (content.filter fun node => !isSoftBreak node).map .inl
  | block => [.inr block]

def stream (blocks : List Block) : List (Inline ⊕ Block) := blocks.flatMap blockStream

theorem stream_append (first second : List Block) :
    stream (first ++ second) = stream first ++ stream second := List.flatMap_append

theorem blockStream_append (first second : List Inline) :
    blockStream (.paragraph (first ++ second)) =
      blockStream (.paragraph first) ++ blockStream (.paragraph second) := by
  rw [blockStream, List.filter_append, List.map_append]
  rfl

theorem blockStream_breaks (n : Nat) :
    blockStream (.paragraph (List.replicate n (.leaf .softBreak))) = [] := by
  rw [blockStream, List.filter_replicate]
  rfl

theorem PartIs.stream (h : PartIs content paragraphs) :
    stream paragraphs = blockStream (.paragraph content) := by
  cases h with
  | breaks n => exact (blockStream_breaks n).symm
  | text before behind =>
      rw [blockStream_append, blockStream_append, blockStream_breaks, blockStream_breaks,
        List.append_nil]
      exact List.append_nil _

theorem SplitsInto.stream (h : SplitsInto content paragraphs) :
    stream paragraphs = blockStream (.paragraph content) := by
  induction h with
  | part _ hpart => exact hpart.stream
  | video url _ hpart _ ih =>
      have halone (others : List Block) :
          VideoParagraph.stream (.paragraph [.leaf (.video url)] :: others) =
            .inl (.leaf (.video url)) :: VideoParagraph.stream others := rfl
      rw [stream_append, hpart.stream, halone, ih, blockStream_append]
      rfl

theorem stream_splitBlock (block : Block) : stream (splitBlock block) = blockStream block := by
  cases block with
  | paragraph content =>
      rw [splitBlock]
      split
      · exact (splitsInto_splitFrom [] content rfl).stream
      · exact List.append_nil _
  | _ => rfl

theorem stream_split (blocks : List Block) : stream (split blocks) = stream blocks := by
  induction blocks with
  | nil => rfl
  | cons block rest ih =>
      rw [← List.singleton_append, split_append, stream_append, stream_append, ih, split_single,
        stream_splitBlock]
      exact congrArg (· ++ _) (List.append_nil _).symm

structure Trimmed (content : List Inline) : Prop where
  filled : content ≠ []
  first : ∀ node ∈ content.head?, isSoftBreak node = false
  last : ∀ node ∈ content.getLast?, isSoftBreak node = false

theorem part_eq (content : List Inline) :
    part content =
      if ((content.dropWhile isSoftBreak).rdropWhile isSoftBreak).isEmpty then []
      else [.paragraph ((content.dropWhile isSoftBreak).rdropWhile isSoftBreak)] := rfl

theorem trimmed_part (content : List Inline) :
    ∀ piece, .paragraph piece ∈ part content → Trimmed piece := by
  intro piece hmem
  rw [part_eq] at hmem
  split at hmem
  · cases hmem
  · next hfilled =>
      obtain rfl : piece = (content.dropWhile isSoftBreak).rdropWhile isSoftBreak := by
        simpa using hmem
      rw [List.isEmpty_iff] at hfilled
      refine ⟨hfilled, fun node hfirst => ?_, fun node hlast => ?_⟩
      · obtain ⟨behind, hwhole⟩ := List.rdropWhile_prefix isSoftBreak
          (content.dropWhile isSoftBreak)
        have hedge := List.head?_dropWhile_not isSoftBreak content
        rw [← hwhole, List.head?_append_of_ne_nil _ hfilled, Option.mem_def.mp hfirst] at hedge
        simpa using hedge
      · obtain ⟨hnonempty, rfl⟩ := List.mem_getLast?_eq_getLast hlast
        exact eq_false_of_ne_true (List.rdropWhile_last_not isSoftBreak _ hnonempty)

theorem trimmed_video (url : Text) : Trimmed [.leaf (.video url)] :=
  ⟨List.cons_ne_nil _ _, by simp [isSoftBreak], by simp [isSoftBreak]⟩

theorem trimmed_splitFrom (kept content : List Inline) :
    ∀ piece, .paragraph piece ∈ splitFrom kept content → Trimmed piece := by
  induction content generalizing kept with
  | nil => exact trimmed_part kept.reverse
  | cons node rest ih =>
      intro piece hmem
      rw [splitFrom] at hmem
      split at hmem
      · next hvideo =>
          obtain ⟨url, rfl⟩ := eq_video hvideo
          rcases List.mem_append.mp hmem with hfront | hbehind
          · exact trimmed_part kept.reverse piece hfront
          · rcases List.mem_cons.mp hbehind with hsame | hbehind
            · cases hsame
              exact trimmed_video url
            · exact ih [] piece hbehind
      · exact ih (node :: kept) piece hmem

/-- What a block becomes among the children of a quote. -/
inductive Regroups : Block → List Block → Prop
  | other {block : Block} : (∀ content, block ≠ .paragraph content) → Regroups block [block]
  | kept {content : List Inline} : content.length ≤ 1 ∨ content.any isVideo = false →
      Regroups (.paragraph content) [.paragraph content]
  | split {content : List Inline} {paragraphs : List Block} :
      1 < content.length → content.any isVideo = true → SplitsInto content paragraphs →
        (∀ part, .paragraph part ∈ paragraphs → Trimmed part) →
        Regroups (.paragraph content) paragraphs

theorem regroups_splitBlock (block : Block) : Regroups block (splitBlock block) := by
  cases block with
  | paragraph content =>
      rw [splitBlock]
      split
      · next hfound =>
          rw [Bool.and_eq_true, decide_eq_true_eq] at hfound
          exact .split hfound.1 hfound.2 (splitsInto_splitFrom [] content rfl)
            (trimmed_splitFrom [] content)
      · next hother =>
          rw [Bool.and_eq_true, decide_eq_true_eq, not_and_or, Nat.not_lt, Bool.not_eq_true]
            at hother
          exact .kept hother
  | _ => exact .other fun _ => Block.noConfusion

theorem splitFrom_append {first : List Inline} (hfree : first.any isVideo = false)
    (kept rest : List Inline) :
    splitFrom kept (first ++ rest) = splitFrom (first.reverse ++ kept) rest := by
  induction first generalizing kept with
  | nil => rfl
  | cons node first ih =>
      rw [List.any_cons, Bool.or_eq_false_iff] at hfree
      rw [List.cons_append, splitFrom, if_neg (by simp [hfree.1]), ih hfree.2]
      simp

theorem isSoftBreak_replicate (n : Nat) :
    ∀ node ∈ List.replicate n (Inline.leaf .softBreak), isSoftBreak node = true :=
  fun _ hmem => (List.eq_of_mem_replicate hmem).symm ▸ rfl

theorem Trimmed.part_eq (h : Trimmed content) (before behind : Nat) :
    part (List.replicate before (.leaf .softBreak) ++ content ++
      List.replicate behind (.leaf .softBreak)) = [.paragraph content] := by
  obtain ⟨node, rest, hwhole⟩ := List.exists_cons_of_ne_nil h.filled
  have hother : isSoftBreak node = false := h.first node (hwhole ▸ rfl)
  have hlast : content.rdropWhile isSoftBreak = content := by
    refine (List.rdropWhile_eq_self_iff ..).mpr fun hfilled => ?_
    simp [h.last _ (List.getLast_mem_getLast? hfilled)]
  have hending : (content ++ List.replicate behind (Inline.leaf .softBreak)).rdropWhile isSoftBreak
      = content := by
    rw [List.rdropWhile, List.reverse_append, List.dropWhile_append_of_pos
      fun node hmem => isSoftBreak_replicate behind node (List.mem_reverse.mp hmem)]
    exact hlast
  rw [VideoParagraph.part_eq, List.append_assoc,
    List.dropWhile_append_of_pos (isSoftBreak_replicate before), hwhole, List.cons_append,
    List.dropWhile_cons_of_neg (by simp [hother]), ← List.cons_append, ← hwhole, hending,
    if_neg (by simpa using h.filled)]

theorem part_replicate (n : Nat) : part (List.replicate n (.leaf .softBreak)) = [] := by
  rw [part_eq, List.dropWhile_eq_nil_iff.mpr (isSoftBreak_replicate n)]
  rfl

theorem PartIs.eq_part (h : PartIs content paragraphs)
    (htrimmed : ∀ part, .paragraph part ∈ paragraphs → Trimmed part) :
    paragraphs = part content := by
  cases h with
  | breaks n => exact (part_replicate n).symm
  | text before behind => exact ((htrimmed _ (by simp)).part_eq before behind).symm

theorem SplitsInto.eq_splitFrom (h : SplitsInto content paragraphs)
    (htrimmed : ∀ part, .paragraph part ∈ paragraphs → Trimmed part) :
    paragraphs = splitFrom [] content := by
  induction h with
  | @part content _ hfree hpart =>
      have hwhole := splitFrom_append hfree [] []
      rw [List.append_nil, List.append_nil, splitFrom, List.reverse_reverse] at hwhole
      rw [hwhole, hpart.eq_part htrimmed]
  | video url hfree hpart _ ih =>
      rw [hpart.eq_part fun _ hmem => htrimmed _ (List.mem_append_left _ hmem),
        ih fun _ hmem => htrimmed _ (List.mem_append_right _ (List.mem_cons_of_mem _ hmem)),
        splitFrom_append hfree, splitFrom, List.append_nil, List.reverse_reverse]
      rfl

theorem Regroups.eq_splitBlock {block : Block} {group : List Block} (h : Regroups block group) :
    group = splitBlock block := by
  cases h with
  | other h =>
      cases block with
      | paragraph content => exact absurd rfl (h content)
      | _ => rfl
  | kept h =>
      rw [splitBlock, if_neg]
      rw [Bool.and_eq_true, decide_eq_true_eq, not_and_or, Nat.not_lt, Bool.not_eq_true]
      exact h
  | split hseveral hfound hsplits htrimmed =>
      rw [splitBlock, if_pos (by simp [hseveral, hfound])]
      exact hsplits.eq_splitFrom htrimmed

theorem PartIs.any_isVideo (h : PartIs content paragraphs) (hfree : content.any isVideo = false) :
    ∀ part, .paragraph part ∈ paragraphs → part.any isVideo = false := by
  cases h with
  | breaks => simp
  | text before behind =>
      rw [List.any_append, List.any_append, Bool.or_eq_false_iff, Bool.or_eq_false_iff] at hfree
      intro part hmem
      cases List.mem_singleton.mp hmem
      exact hfree.1.2

theorem SplitsInto.alone_video (h : SplitsInto content paragraphs) :
    ∀ part, .paragraph part ∈ paragraphs → part.any isVideo = true →
      ∃ url, part = [.leaf (.video url)] := by
  induction h with
  | part hfree hpart =>
      intro piece hmem hfound
      exact absurd (hfound.symm.trans (hpart.any_isVideo hfree piece hmem)) (by decide)
  | video url hfree hpart _ ih =>
      intro piece hmem hfound
      rcases List.mem_append.mp hmem with hfront | hbehind
      · exact absurd (hfound.symm.trans (hpart.any_isVideo hfree piece hfront)) (by decide)
      · rcases List.mem_cons.mp hbehind with hsame | hbehind
        · cases hsame
          exact ⟨url, rfl⟩
        · exact ih piece hbehind hfound

theorem alone_split (hmem : .paragraph content ∈ split blocks)
    (hfound : content.any isVideo = true) : ∃ url, content = [.leaf (.video url)] := by
  obtain ⟨block, -, hmem⟩ := List.mem_flatMap.mp hmem
  have hregroups := regroups_splitBlock block
  generalize splitBlock block = group at hmem hregroups
  cases hregroups with
  | other h => exact absurd (List.mem_singleton.mp hmem).symm (h content)
  | kept h =>
      cases List.mem_singleton.mp hmem
      rw [hfound, or_iff_left (by decide)] at h
      obtain ⟨node, rfl⟩ : ∃ node, content = [node] := by
        refine List.length_eq_one_iff.mp (Nat.le_antisymm h (List.length_pos_iff.mpr ?_))
        rintro rfl
        cases hfound
      obtain ⟨url, rfl⟩ := @eq_video node (by simpa using hfound)
      exact ⟨url, rfl⟩
  | split _ _ hsplits _ => exact hsplits.alone_video content hmem hfound

theorem forall₂_regroups_iff {groups : List (List Block)} :
    List.Forall₂ Regroups blocks groups ↔ groups = blocks.map splitBlock := by
  constructor
  · intro h
    induction h with
    | nil => rfl
    | cons hregroups _ ih => rw [hregroups.eq_splitBlock, ih, List.map_cons]
  · rintro rfl
    rw [List.forall₂_map_right_iff, List.forall₂_same]
    exact fun block _ => regroups_splitBlock block

/--
Blocks are regrouped around videos in the one way that `Regroups` allows. Nothing but soft breaks
is lost and nothing changes its place, a video is all that its paragraph holds, and regrouping
once more changes nothing.
-/
theorem split_regroups (blocks : List Block) :
    (∃ groups, (∀ others, List.Forall₂ Regroups blocks others ↔ others = groups) ∧
      split blocks = groups.flatten) ∧
      stream (split blocks) = stream blocks ∧
      (∀ content, .paragraph content ∈ split blocks → content.any isVideo = true →
        ∃ url, content = [.leaf (.video url)]) ∧
      split (split blocks) = split blocks :=
  ⟨⟨blocks.map splitBlock, fun _ => forall₂_regroups_iff, List.flatMap_def⟩, stream_split blocks,
    fun _ hmem hfound => alone_split hmem hfound, split_split blocks⟩

end Canonmark.VideoParagraph
