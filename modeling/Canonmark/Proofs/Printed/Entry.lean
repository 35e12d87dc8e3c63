import Canonmark.Proofs.Printed.Markers
import Canonmark.Proofs.Printed.Steps

/-!
# Entering printed blocks

The marker of a quote or of an item opens its container, and the line goes on behind it. Any other
line of a settled block starts a leaf, which leaves the reader in the levels that it stands in.
-/

namespace Canonmark.Printed

open Source

variable {extensions : Extensions} {source : Text} {reader : BlockReader}
variable {levels : List Level} {draft : Draft} {more : List Container}

theorem enter_quote (fuel taken : Nat) (text : Text) (reader : BlockReader) :
    enter (fuel + 1) (headAt taken ('>' :: ' ' :: text)) reader
      = enter fuel (headAt (taken + 2) text)
          ((reader.finishList reader.position).push .quote (reader.position + taken)) := by
  have hcolumns : (headAt taken ('>' :: ' ' :: text)).takeUpTo 4
      = (0, headAt taken ('>' :: ' ' :: text)) := takeUpTo_headAt (by simp) taken 4
  have hfootnote : BlockReader.footnote? (headAt taken ('>' :: ' ' :: text)) reader = none :=
    BlockReader.footnote?_eq_none _ _ fun _ rest => by simp [headAt]
  have hitem : (headAt taken ('>' :: ' ' :: text)).itemMarker? 0 = none :=
    itemMarker?_none_of_head rfl (fun hbullet => by cases hbullet) taken
  have hquote :
      (headAt taken ('>' :: ' ' :: text)).quoteMarker? = some (headAt (taken + 2) text) := by
    have hspace := takeExactly_spaces (taken + 1) 1 text
    exact congrArg (fun found : Bool × LineHead => some found.2) hspace
  unfold enter
  simp only [BlockReader.openContainers, hcolumns, hfootnote, hitem, hquote]
  rfl

theorem taskMarker?_none {line : Text} (hvisible : Visible line) (h : isCheckBox line = false)
    (taken : Nat) (behind : Text) :
    (headAt taken (line ++ '\n' :: behind)).taskMarker? = none := by
  have hcolumns := takeUpTo_headAt (hvisible.front ('\n' :: behind)) taken 3
  simp only [LineHead.taskMarker?, hcolumns]
  split
  · next c d tail hsame =>
      have hsame : line ++ '\n' :: behind = '[' :: c :: ']' :: d :: tail := hsame
      rcases line with - | ⟨first, - | ⟨second, - | ⟨third, rest⟩⟩⟩
      · cases hsame
      · obtain ⟨-, rfl, -⟩ : first = '[' ∧ '\n' = c ∧ _ := by simpa using hsame
        have hfeed : Ascii.isBlank '\n' = false := rfl
        simp [hfeed]
      · simp at hsame
      · obtain ⟨rfl, rfl, rfl, hlast⟩ :
            first = '[' ∧ second = c ∧ third = ']' ∧ rest ++ '\n' :: behind = d :: tail := by
          simpa using hsame
        have hspaced : rest.head?.all Ascii.isSpace = Ascii.isSpace d := by
          cases rest with
          | nil =>
              obtain ⟨rfl, -⟩ := List.cons.inj hlast
              rfl
          | cons e rest =>
              obtain ⟨rfl, -⟩ := List.cons.inj hlast
              rfl
        simp only [isCheckBox, hspaced] at h
        cases hspace : Ascii.isSpace d with
        | false => rfl
        | true =>
            simp only [hspace, Bool.and_true, Bool.or_eq_false_iff] at h
            simp [h]
  · rfl

theorem footnote?_marker {c : Char} {rest : Text} (h : c ≠ '[') (taken : Nat)
    (reader : BlockReader) : BlockReader.footnote? (headAt taken (c :: rest)) reader = none :=
  BlockReader.footnote?_eq_none _ _ fun _ label => by simp [headAt, h]

theorem enter_item {fuel taken number : Nat} {kind : ListKind} {marker line behind : Text}
    (hmarks : Marks kind number marker) (hvisible : Visible line)
    (hrule : rule? (marker ++ ' ' :: (line ++ behind)) = none)
    (htask : reader.extensions.tasklists = true →
      ∀ taken, (headAt taken (line ++ behind)).taskMarker? = none)
    (h : Ready extensions source
      ((reader.continueList (reader.position + taken) (listMarker kind) number).push
        (.item (marker.length + 1)) (reader.position + taken))) :
    enter (fuel + 1) (headAt taken (marker ++ ' ' :: (line ++ behind))) reader
      = enter fuel (headAt (taken + marker.length + 1) (line ++ behind))
          ((reader.continueList (reader.position + taken) (listMarker kind) number).push
            (.item (marker.length + 1)) (reader.position + taken)) := by
  have hfront := (hmarks.isMarker.visible []).front (' ' :: (line ++ behind))
  rw [List.append_nil] at hfront
  have hcolumns := takeUpTo_headAt hfront taken 4
  have hitem := hmarks.itemMarker? hvisible hrule taken
  have hfootnote : BlockReader.footnote?
      (headAt taken (marker ++ ' ' :: (line ++ behind))) reader = none := by
    obtain ⟨c, rest, rfl, hchar⟩ := hmarks.isMarker.exists_cons
    refine footnote?_marker ?_ taken reader
    rintro rfl
    cases hchar
  have hbox : (if reader.extensions.tasklists then
      (headAt (taken + marker.length + 1) (line ++ behind)).taskMarker? else none) = none := by
    split
    · next henabled => exact htask henabled _
    · rfl
  have hblank : blankLine? (headAt (taken + marker.length + 1) (line ++ behind)).rest = none :=
    hvisible.blankLine? behind
  unfold enter
  simp only [BlockReader.openContainers, hcolumns, hfootnote, hitem, BlockReader.openItem, hblank,
    hbox]
  have hclosed : ¬4 ≤ 0 := by decide
  have hstart : reader.position + (headAt taken (marker ++ ' ' :: (line ++ behind))).taken - 0
      = reader.position + taken := rfl
  simp only [hclosed, if_false, hstart, h.task, Option.isSome_none, Bool.false_eq_true]

theorem enter_leaf {taken : Nat} {text : Text}
    (hfront : text.head? ≠ some ' ' ∧ text.head? ≠ some '\t')
    (hfootnote : BlockReader.footnote? (headAt taken text) reader = none)
    (hitem : (headAt taken text).itemMarker? 0 = none) (hquote : text.head? ≠ some '>')
    (hblank : blankLine? text = none) (fuel : Nat) :
    enter fuel (headAt taken text) reader = BlockReader.readLeaf (headAt taken text) reader := by
  have hvisible : blankLine? (headAt taken text).rest = none := hblank
  unfold enter
  simp only [openContainers_none hfront hfootnote hitem hquote, hvisible]

def place (levels : List Level) : Place :=
  match levels.getLast? with
  | some (.item _ _) => .item
  | _ => .free

theorem place_append_quote (levels : List Level) : place (levels ++ [.quote]) = .free := by
  simp [place]

theorem place_append_item (levels : List Level) (marker : Char) (width : Nat) :
    place (levels ++ [.item marker width]) = .item := by
  simp [place]

theorem Fits.place {containers : List Container} (h : Fits levels containers) :
    (containers.getLast?.map Container.place).getD .free = Printed.place levels := by
  induction h with
  | nil => rfl
  | @quote levels containers h ih =>
      cases h with
      | nil => rfl
      | _ => simpa [Printed.place, List.getLast?_cons_cons] using ih
  | @item tight marker number width hwide levels containers h ih =>
      cases h with
      | nil => rfl
      | _ => simpa [Printed.place, List.getLast?_cons_cons] using ih

theorem placeOf_levels (h : StandsIn levels [] reader) :
    BlockReader.placeOf reader.spine = place levels := by
  obtain ⟨containers, hfits, hsame⟩ := h
  rw [List.append_nil] at hsame
  rw [← hfits.place, ← hsame, ← head?_containers, BlockReader.placeOf, List.head?_map,
    Option.map_map]
  rfl

theorem place_ne_list (levels : List Level) : place levels ≠ .list := by
  unfold place
  split <;> simp

/-- A reader that stands in levels with no list open, in front of a leaf. -/
structure AtLeaf (extensions : Extensions) (source : Text) (levels : List Level) (draft : Draft)
    (reader : BlockReader) : Prop where
  ready : Ready extensions source reader
  stands : StandsIn levels [] reader
  draft : reader.draft source = draft

theorem Reads.atLeaf (h : Reads extensions source levels draft more reader) (hlist : IsList more)
    (stop : Nat) : AtLeaf extensions source levels draft (reader.finishList stop) := by
  obtain ⟨containers, hfits, hsame⟩ := h.stands
  obtain ⟨hready, hstands, hfound⟩ := finishList_spec h.ready hfits hsame hlist stop
  exact ⟨hready, hstands, by rw [hfound, hfits.length, h.draft]⟩

theorem AtLeaf.length (h : AtLeaf extensions source levels draft reader) :
    (reader.draft source).frames.length = depth levels := by
  obtain ⟨containers, hfits, hsame⟩ := h.stands
  rw [BlockReader.length_draft, ← length_containers, hsame, List.append_nil, hfits.length]

theorem AtLeaf.finishLeaf (h : AtLeaf extensions source levels draft reader) {read : LeafRead}
    (hposition : source.drop read.position = read.rest) :
    Reads extensions source levels (draft.append (read.leaf.outline (place levels))) []
      (BlockReader.finishLeaf read reader) := by
  have hplaced := placeOf_levels h.stands
  have happended := BlockReader.draft_append_leaf source read.leaf read.span
    (hplaced ▸ place_ne_list levels)
  rw [hplaced, h.draft] at happended
  have houter := BlockReader.spine_append (.leaf read.leaf read.span) reader
  obtain ⟨spine, blocks, hshape⟩ := BlockReader.append_eq (.leaf read.leaf read.span) reader
  have hfinished : BlockReader.finishLeaf read reader
      = { reader with
          spine := spine, blocks := blocks, position := read.position, rest := read.rest } := by
    rw [BlockReader.finishLeaf, hshape]
  have hfound : (BlockReader.finishLeaf read reader).draft source
      = draft.append (read.leaf.outline (place levels)) := by
    rw [← happended, hshape, hfinished]
    rfl
  refine ⟨?_, ?_, ?_⟩
  · rw [hfinished]
    exact ⟨h.ready.extensions, hposition, h.ready.emptyItem, h.ready.task⟩
  · obtain ⟨containers, hfits, hsame⟩ := h.stands
    refine ⟨containers, hfits, ?_⟩
    rw [← hsame, hfinished, BlockReader.containers, BlockReader.containers, ← houter, hshape]
  · rw [hfound]
    apply Draft.closeTo_of_le
    rw [Draft.length_append, ← h.draft, h.length]

theorem drop_line (line behind : Text) :
    (line ++ '\n' :: behind).drop (line.length + 1) = behind := by
  rw [← List.drop_drop, List.drop_left]
  rfl

theorem lineLength_line {line : Text} (hfeed : '\n' ∉ line) (behind : Text) :
    lineLength (line ++ '\n' :: behind) = line.length + 1 := by
  induction line with
  | nil => rfl
  | cons c rest ih =>
      simp only [List.mem_cons, not_or] at hfeed
      rw [List.cons_append, lineLength, if_neg (Ne.symm hfeed.1), ih hfeed.2, List.length_cons]

theorem take_line {line : Text} (hfeed : '\n' ∉ line) (behind : Text) :
    (line ++ '\n' :: behind).take (lineLength (line ++ '\n' :: behind)) = line ++ ['\n'] := by
  have hsplit : line ++ '\n' :: behind = (line ++ ['\n']) ++ behind := by simp
  have hlength : line.length + 1 = (line ++ ['\n']).length := by simp
  rw [lineLength_line hfeed, hsplit, hlength, List.take_left]

theorem isMetadataFence_of_starts {line behind : Text} (hfeed : '\n' ∉ line)
    (h : startsMetadata (line ++ '\n' :: behind) = true) : isMetadataFence line = true := by
  have hcount : countWhile (· = '-') (line ++ '\n' :: behind) = countWhile (· = '-') line := by
    rw [countWhile, countWhile, Text.takeWhile_line rfl]
  simp only [startsMetadata, hcount, Bool.and_eq_true, decide_eq_true_eq] at h
  obtain ⟨⟨⟨⟨hthree, hspaces⟩, -⟩, -⟩, -⟩ := h
  have hlong : 3 ≤ line.length := hthree ▸ (List.takeWhile_sublist _).length_le
  have hdrop : (line ++ '\n' :: behind).drop 3 = line.drop 3 ++ '\n' :: behind :=
    List.drop_append_of_le_length hlong
  rw [hdrop, take_line fun hmem => hfeed (List.mem_of_mem_drop hmem)] at hspaces
  simp only [isMetadataFence, hthree, decide_true, Bool.true_and]
  rw [List.all_append, Bool.and_eq_true] at hspaces
  exact hspaces.1

theorem metadata_line {line : Text} (hfeed : '\n' ∉ line)
    (h : (extensions.frontMatter && isMetadataFence line) = false) (behind : Text) :
    (extensions.frontMatter && startsMetadata (line ++ '\n' :: behind)) = false := by
  cases henabled : extensions.frontMatter with
  | false => rfl
  | true =>
      rw [henabled, Bool.true_and] at h
      by_contra hstarts
      rw [Bool.true_and, Bool.not_eq_false] at hstarts
      rw [isMetadataFence_of_starts hfeed hstarts] at h
      cases h

structure PlainFront (extensions : Extensions) (text : Text) : Prop where
  front : text.head? ≠ some ' ' ∧ text.head? ≠ some '\t'
  metadata : (extensions.frontMatter && startsMetadata text) = false
  html : text.head? = some '<' → HtmlBlock.end? (text.drop 1) = none

theorem readLeaf_eq (h : AtLeaf extensions source levels draft (reader.finishList reader.position))
    {text : Text} (hplain : PlainFront extensions text) (taken : Nat) :
    BlockReader.readLeaf (headAt taken text) reader
      = (rule? text).elim
          ((headingLevel? text).elim
            ((fence? text).elim
              (BlockReader.readParagraph (text.length + 1) (headAt taken text)
                (reader.finishList reader.position))
              fun found => BlockReader.finishLeaf
                (LeafReader.fencedCode (reader.finishList reader.position).containers 0
                  (reader.position + taken) found.2 found.1 text)
                (reader.finishList reader.position))
            fun level => BlockReader.finishLeaf
              (LeafReader.heading extensions (reader.position + taken) level text)
              (reader.finishList reader.position))
          fun n => BlockReader.finishLeaf
            ⟨.rule, .ofLength (reader.position + taken) n,
              reader.position + taken + n, text.drop n⟩
            (reader.finishList reader.position) := by
  have hstays := BlockReader.stays_finishList reader.position reader
  have hcolumns := takeUpTo_headAt hplain.front taken 4
  have htext : (headAt taken text).rest = text := rfl
  have htaken : (headAt taken text).taken = taken := rfl
  have hhtml : (if text.head? = some '<' then HtmlBlock.end? (text.drop 1) else none) = none := by
    split
    · next htag => exact hplain.html htag
    · rfl
  unfold BlockReader.readLeaf
  simp only [hcolumns, htext, htaken, h.ready.task, h.ready.extensions, hstays.position, hhtml,
    Option.isSome_none, Bool.false_eq_true, if_false]
  rw [if_neg (by decide)]
  simp only [hplain.metadata, decide_true, Bool.true_and, Bool.false_eq_true, if_false]
  cases rule? text with
  | some n => rfl
  | none =>
      cases headingLevel? text with
      | some level => rfl
      | none => cases fence? text <;> rfl

end Canonmark.Printed
