import Canonmark.Proofs.Document.Enclosures
import Canonmark.Proofs.Document.Leaves

/-!
# Videos in documents that are read

Videos are found in paragraphs with a quote around them, where they fill a line. There are none
outside of quotes, in headings, and in nodes with children.
-/

namespace Canonmark

def Leaf.isVideo : Leaf → Bool
  | .video _ => true
  | _ => false

namespace Inline

theorem mem_leavesOf {content : List Inline} {leaf : Leaf} :
    leaf ∈ leavesOf content ↔ ∃ node ∈ content, leaf ∈ node.leaves := by
  induction content with
  | nil => simp [leavesOf]
  | cons node rest ih => simp [leavesOf, ih]

def VideoFree (node : Inline) : Prop := ∀ leaf ∈ node.leaves, leaf.isVideo = false

def AllVideoFree (content : List Inline) : Prop := ∀ node ∈ content, node.VideoFree

@[simp] theorem videoFree_leaf (leaf : Leaf) :
    (Inline.leaf leaf).VideoFree ↔ leaf.isVideo = false := by
  simp [VideoFree, leaves]

@[simp] theorem videoFree_node (wrapper : Wrapper) (children : List Inline) :
    (Inline.node wrapper children).VideoFree ↔ AllVideoFree children := by
  simp only [VideoFree, AllVideoFree, leaves, mem_leavesOf]
  refine ⟨fun h child hmem leaf hinside => h leaf ⟨child, hmem, hinside⟩, ?_⟩
  rintro h leaf ⟨child, hmem, hinside⟩
  exact h child hmem leaf hinside

theorem allVideoFree_nil : AllVideoFree [] := fun _ hmem => absurd hmem List.not_mem_nil

@[simp] theorem allVideoFree_cons (node : Inline) (rest : List Inline) :
    AllVideoFree (node :: rest) ↔ node.VideoFree ∧ AllVideoFree rest := List.forall_mem_cons

@[simp] theorem allVideoFree_append (first second : List Inline) :
    AllVideoFree (first ++ second) ↔ AllVideoFree first ∧ AllVideoFree second :=
  List.forall_mem_append

@[simp] theorem allVideoFree_reverse (content : List Inline) :
    AllVideoFree content.reverse ↔ AllVideoFree content := by
  simp [AllVideoFree]

def VideoAlone (content : List Inline) : Prop :=
  AllVideoFree content ∨ ∃ url, content = [.leaf (.video url)]

/-- Lines of content, in each of which a video stands alone. -/
inductive VideoLines : List Inline → Prop where
  | line {line : List Inline} : VideoAlone line → VideoLines line
  | cons {line rest : List Inline} : VideoAlone line → VideoLines rest →
      VideoLines (line ++ .leaf .softBreak :: rest)

end Inline

open Inline (VideoFree AllVideoFree VideoAlone VideoLines)
open Source (Event)

/-- What stands around a block, as far as it decides which videos may be in it. -/
inductive VideoPlace where
  | outside
  /-- An item, with a quote further out. -/
  | item
  | quote
  deriving DecidableEq

namespace VideoPlace

def inItem : VideoPlace → VideoPlace
  | .outside => .outside
  | _ => .item

def OnLines : VideoPlace → List Inline → Prop
  | .outside => AllVideoFree
  | _ => VideoLines

def inside (place : VideoPlace) : Enclosure → VideoPlace
  | .quote => .quote
  | .item _ => place.inItem

def within (enclosures : List Enclosure) : VideoPlace := enclosures.foldl inside .outside

theorem within_concat (enclosures : List Enclosure) (enclosure : Enclosure) :
    within (enclosures ++ [enclosure]) = (within enclosures).inside enclosure := by
  simp [within]

theorem within_eq_outside (enclosures : List Enclosure) :
    within enclosures = .outside ↔ enclosures.countP (· = .quote) = 0 := by
  induction enclosures using List.reverseRecOn with
  | nil => simp [within]
  | append_singleton enclosures enclosure ih =>
      rw [within_concat, List.countP_append]
      cases enclosure with
      | quote => simp [inside]
      | item indent =>
          cases hplace : within enclosures <;> simp [inside, inItem, ← ih, hplace]

end VideoPlace

namespace Block

/-! A paragraph at a place satisfies what `fits` asks for there; headings have no videos. -/

mutual

def VideosFit (fits : VideoPlace → List Inline → Prop) (place : VideoPlace) : Block → Prop
  | .paragraph content => fits place content
  | .heading _ content => AllVideoFree content
  | .quote _ children => AllVideosFit fits .quote children
  | .list _ _ items => ItemVideosFit fits place.inItem items
  | .verbatim _ => True

def AllVideosFit (fits : VideoPlace → List Inline → Prop) (place : VideoPlace) :
    List Block → Prop
  | [] => True
  | block :: rest => VideosFit fits place block ∧ AllVideosFit fits place rest

def ItemVideosFit (fits : VideoPlace → List Inline → Prop) (place : VideoPlace) :
    List (List Block) → Prop
  | [] => True
  | item :: rest => AllVideosFit fits place item ∧ ItemVideosFit fits place rest

end

variable {fits : VideoPlace → List Inline → Prop} {place : VideoPlace}

theorem allVideosFit_iff {blocks : List Block} :
    AllVideosFit fits place blocks ↔ ∀ block ∈ blocks, block.VideosFit fits place := by
  induction blocks with
  | nil => simp [AllVideosFit]
  | cons block rest ih => simp [AllVideosFit, ih]

theorem allVideosFit_append {first second : List Block} :
    AllVideosFit fits place (first ++ second) ↔
      AllVideosFit fits place first ∧ AllVideosFit fits place second := by
  simp only [allVideosFit_iff, List.forall_mem_append]

theorem allVideosFit_verbatim {α : Type} (values : List α) (content : α → Verbatim) :
    AllVideosFit fits place (values.map fun value => .verbatim (content value)) := by
  simp [allVideosFit_iff, VideosFit]

end Block

/-! ## Marking -/

theorem XrefShortcut.isVideo_splitFrom (before : Option Char) (kept : Text) (skip : Nat)
    (text : Text) : ∀ leaf ∈ splitFrom before kept skip text, leaf.isVideo = false := by
  have hplain (kept : Text) : ∀ leaf ∈ textLeaf kept, leaf.isVideo = false := by
    unfold textLeaf
    split <;> simp [Leaf.isVideo]
  induction text generalizing before kept skip with
  | nil => cases skip <;> exact hplain kept
  | cons c rest ih =>
      cases skip with
      | succ skip => exact ih _ _ skip
      | zero =>
          rw [splitFrom]
          split
          · rw [List.forall_mem_append, List.forall_mem_cons]
            exact ⟨hplain kept, rfl, ih _ _ _⟩
          · exact ih _ _ 0

theorem XrefShortcut.allVideoFree_splitAll {content : List Inline} (h : AllVideoFree content) :
    AllVideoFree (splitAll content) := by
  rintro node hmem
  obtain ⟨before, hbefore, hinside⟩ := List.mem_flatMap.mp hmem
  split at hinside
  · next text =>
      obtain ⟨leaf, hleaf, rfl⟩ := List.mem_map.mp hinside
      rw [Inline.videoFree_leaf]
      unfold split at hleaf
      split at hleaf
      · exact isVideo_splitFrom _ _ _ _ leaf hleaf
      · rw [List.mem_singleton.mp hleaf]
        rfl
  · exact List.mem_singleton.mp hinside ▸ h before hbefore

namespace VideoDirective

theorem videoAlone_markLine {line : List Inline} (h : AllVideoFree line) :
    VideoAlone (markLine line) := by
  unfold markLine
  split
  · split
    · exact .inr ⟨_, rfl⟩
    · exact .inl h
  · exact .inl ((Inline.allVideoFree_reverse line).mpr h)

theorem videoLines_mark {content : List Inline} (h : AllVideoFree content) :
    VideoLines (mark content) := by
  suffices hfrom : ∀ line, AllVideoFree line → VideoLines (markFrom line content) from
    hfrom [] Inline.allVideoFree_nil
  induction content with
  | nil => exact fun line hline => .line (videoAlone_markLine hline)
  | cons node rest ih =>
      intro line hline
      obtain ⟨hnode, hrest⟩ := (Inline.allVideoFree_cons node rest).mp h
      unfold markFrom
      split
      · next h => cases h
      · next h =>
          cases h
          exact .cons (videoAlone_markLine hline) (ih hrest [] Inline.allVideoFree_nil)
      · next h =>
          cases h
          exact ih hrest _ ((Inline.allVideoFree_cons _ _).mpr ⟨hnode, hline⟩)

end VideoDirective

/-! ## Building -/

namespace Builder

variable {origin : Origin}

theorem videoFree_pushText {content : List Inline} (h : AllVideoFree content) (span : Span)
    (builder : Builder) : AllVideoFree (pushText origin span content builder).1 := by
  unfold pushText
  simp only
  split
  · exact (Inline.allVideoFree_cons _ _).mpr ⟨by simp [Leaf.isVideo],
      ((Inline.allVideoFree_cons _ _).mp h).2⟩
  · exact (Inline.allVideoFree_cons _ _).mpr ⟨by simp [Leaf.isVideo], h⟩

theorem isVideo_autolink (written : Text) : (autolink written).isVideo = false := by
  unfold autolink
  simp only
  split
  · split
    · rfl
    · split <;> rfl
  · rfl

mutual

theorem videoFree_inline (fuel : Nat) (event : Event) (span : Span) {content : List Inline}
    (h : AllVideoFree content) (builder : Builder) :
    AllVideoFree (inline origin fuel event span content builder).1 := by
  have hadded {node : Inline} (hnode : node.VideoFree) : AllVideoFree (node :: content) :=
    (Inline.allVideoFree_cons _ _).mpr ⟨hnode, h⟩
  have hleaf' (leaf : Leaf) (hleaf : leaf.isVideo = false) : AllVideoFree (.leaf leaf :: content) :=
    hadded ((Inline.videoFree_leaf leaf).mpr hleaf)
  cases fuel with
  | zero => exact h
  | succ fuel =>
      have hchildren (wrapper : Wrapper) :
          AllVideoFree (.node wrapper (inlines origin fuel [] builder).1 :: content) :=
        hadded ((Inline.videoFree_node _ _).mpr
          (videoFree_inlines fuel Inline.allVideoFree_nil builder))
      cases event with
      | text text => exact videoFree_pushText h span builder
      | leave => exact h
      | enter tag =>
          cases tag with
          | emphasis => exact hchildren _
          | strong => exact hchildren _
          | strike => exact hchildren _
          | link image form destination title =>
              cases form with
              | direct => exact hchildren _
              | labelled => exact hleaf' _ rfl
              | autolink =>
                  cases image
                  · exact hleaf' _ (isVideo_autolink _)
                  · exact hleaf' _ rfl
              | mail => cases image <;> exact hleaf' _ rfl
          | _ => exact hleaf' _ rfl
      | _ => exact hleaf' _ rfl

theorem videoFree_inlines (fuel : Nat) {content : List Inline} (h : AllVideoFree content)
    (builder : Builder) : AllVideoFree (inlines origin fuel content builder).1 := by
  have hdone := XrefShortcut.allVideoFree_splitAll ((Inline.allVideoFree_reverse content).mpr h)
  cases fuel with
  | zero => exact hdone
  | succ fuel =>
      rw [inlines]
      split
      · exact hdone
      · exact hdone
      · exact videoFree_inlines fuel (videoFree_inline fuel _ _ h _) _

end

theorem videoFree_looseInlines (fuel : Nat) {content : List Inline} (h : AllVideoFree content)
    (builder : Builder) : AllVideoFree (looseInlines origin fuel content builder).1 := by
  have hdone {content : List Inline} (h : AllVideoFree content) :
      AllVideoFree (XrefShortcut.splitAll content.reverse) :=
    XrefShortcut.allVideoFree_splitAll ((Inline.allVideoFree_reverse content).mpr h)
  induction fuel generalizing content builder with
  | zero => exact hdone h
  | succ fuel ih =>
      rw [looseInlines]
      split
      · exact hdone h
      · split
        · exact ih (videoFree_inline fuel _ _ h _) _
        · exact hdone h

def place (builder : Builder) : VideoPlace := .within builder.enclosures

theorem place_enter (enclosure : Enclosure) (builder : Builder) :
    (builder.enter enclosure).place = builder.place.inside enclosure :=
  VideoPlace.within_concat _ _

theorem onLines_paragraph {content : List Inline} (h : AllVideoFree content)
    {builder after : Builder} (hsame : after.enclosures = builder.enclosures) :
    (after.paragraph content).VideosFit VideoPlace.OnLines builder.place := by
  have houtside := VideoPlace.within_eq_outside builder.enclosures
  rw [paragraph, quoteDepth, hsame, Block.VideosFit]
  cases hplace : builder.place with
  | outside =>
      rw [if_neg (by have := houtside.mp hplace; omega)]
      exact h
  | _ =>
      rw [if_pos (Nat.pos_of_ne_zero fun hnone => by
        have := hplace.symm.trans (houtside.mpr hnone); cases this)]
      exact VideoDirective.videoLines_mark h

mutual

theorem onLines_block (fuel : Nat) (event : Event) (span : Span) (builder : Builder) :
    Block.AllVideosFit VideoPlace.OnLines builder.place
      (block origin fuel event span builder).1.toList := by
  cases fuel with
  | zero => trivial
  | succ fuel =>
      have hcontent := @videoFree_inlines origin fuel [] Inline.allVideoFree_nil builder
      have hloose : ((looseInlines origin fuel (inline origin fuel event span [] builder).1
            (inline origin fuel event span [] builder).2).2.paragraph
          (looseInlines origin fuel (inline origin fuel event span [] builder).1
            (inline origin fuel event span [] builder).2).1).VideosFit
              VideoPlace.OnLines builder.place :=
        onLines_paragraph
          (videoFree_looseInlines fuel (videoFree_inline fuel event span Inline.allVideoFree_nil _)
          _)
          ((moves_looseInlines fuel _ _).enclosures.trans
            (moves_inline fuel event span [] builder).enclosures)
      cases event with
      | enter tag =>
          cases tag with
          | paragraph =>
              exact ⟨onLines_paragraph hcontent (moves_inlines fuel [] builder).enclosures, trivial⟩
          | heading level => exact ⟨hcontent, trivial⟩
          | quote =>
              have hchildren := onLines_blocks fuel (builder.enter .quote)
              rw [place_enter] at hchildren
              exact ⟨hchildren, trivial⟩
          | list number => exact ⟨onLines_items fuel number none builder, trivial⟩
          | emphasis => exact ⟨hloose, trivial⟩
          | strong => exact ⟨hloose, trivial⟩
          | strike => exact ⟨hloose, trivial⟩
          | link => exact ⟨hloose, trivial⟩
          | _ => exact ⟨trivial, trivial⟩
      | text => exact ⟨hloose, trivial⟩
      | code => exact ⟨hloose, trivial⟩
      | inlineHtml => exact ⟨hloose, trivial⟩
      | inlineMath => exact ⟨hloose, trivial⟩
      | footnoteReference => exact ⟨hloose, trivial⟩
      | softBreak => exact ⟨hloose, trivial⟩
      | hardBreak => exact ⟨hloose, trivial⟩
      | task => exact ⟨hloose, trivial⟩
      | leave => trivial
      | _ => exact ⟨trivial, trivial⟩

theorem onLines_blocks (fuel : Nat) (builder : Builder) :
    Block.AllVideosFit VideoPlace.OnLines builder.place (blocks origin fuel builder).1 := by
  have hflushed (position : Nat) (builder : Builder) :
      Block.AllVideosFit VideoPlace.OnLines builder.place (flush origin position builder).1 :=
    Block.allVideosFit_verbatim _ _
  cases fuel with
  | zero => trivial
  | succ fuel =>
      rw [blocks]
      split
      · trivial
      · next span rest _ => exact hflushed span.stop { builder with events := rest }
      · next event span rest _ _ =>
          have hfirst := onLines_block fuel event span
            (flush origin span.start { builder with events := rest }).2
          have hothers := onLines_blocks fuel (block origin fuel event span
            (flush origin span.start { builder with events := rest }).2).2
          rw [place, enclosures_block] at hothers
          exact Block.allVideosFit_append.mpr ⟨Block.allVideosFit_append.mpr
            ⟨hflushed span.start { builder with events := rest }, hfirst⟩, hothers⟩

theorem onLines_items (fuel : Nat) (number : Option Nat) (kind : Option ListKind)
    (builder : Builder) :
    Block.ItemVideosFit VideoPlace.OnLines builder.place.inItem
      (items origin fuel number kind builder).2.2.1 := by
  cases fuel with
  | zero => trivial
  | succ fuel =>
      rw [items]
      split
      · trivial
      · trivial
      · next span rest _ =>
          have hfirst := onLines_blocks fuel (enter (.item (readItemMarker number
            (origin.source.drop span.start)).2) { builder with events := rest })
          have hothers := onLines_items fuel number (some (kind.getD (readItemMarker number
            (origin.source.drop span.start)).1)) (blocks origin fuel (enter (.item (readItemMarker
              number (origin.source.drop span.start)).2) { builder with events := rest })).2.leave
          rw [place_enter] at hfirst
          rw [place, enclosures_leave (enclosures_blocks fuel _)] at hothers
          exact ⟨hfirst, hothers⟩
      · next rest _ _ _ => exact onLines_items fuel number kind { builder with events := rest }

end

end Builder

theorem Document.onLines_ofEvents (origin : Origin) (events : List Source.Located)
    (definitions : List Span) :
    Block.AllVideosFit VideoPlace.OnLines .outside (ofEvents origin events definitions) := by
  have hblocks := @Builder.onLines_blocks origin (2 * events.length + 1)
    { events := events, definitions := definitions }
  exact Block.allVideosFit_append.mpr ⟨hblocks, Block.allVideosFit_verbatim _ _⟩

end Canonmark
