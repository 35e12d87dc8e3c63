import Canonmark.Proofs.Source.TokenLine
import Canonmark.Proofs.Text.Basic
import Canonmark.Source.LeafReader

/-!
# Reading goes on

Whatever is taken off a text, the position moves on by as many characters. So what reads the
lines of a block stops where the text that it leaves is in the source.
-/

namespace Canonmark.Source

/-- From a text at a position to what stands behind some of its characters. -/
def Onward (position : Nat) (text : Text) (position' : Nat) (text' : Text) : Prop :=
  ∃ n, position' = position + n ∧ text' = text.drop n

namespace Onward

variable {position position' position'' : Nat} {text text' text'' : Text}

theorem refl (position : Nat) (text : Text) : Onward position text position text :=
  ⟨0, rfl, rfl⟩

theorem trans (h : Onward position text position' text')
    (h' : Onward position' text' position'' text'') : Onward position text position'' text'' := by
  obtain ⟨n, rfl, rfl⟩ := h
  obtain ⟨k, rfl, rfl⟩ := h'
  exact ⟨n + k, Nat.add_assoc _ _ _, List.drop_drop⟩

theorem drop (h : Onward position text position' text') (n : Nat) :
    Onward position text (position' + n) (text'.drop n) :=
  h.trans ⟨n, rfl, rfl⟩

theorem shift (h : Onward position text position' text') (start : Nat) :
    Onward (start + position) text (start + position') text' := by
  obtain ⟨n, rfl, rfl⟩ := h
  exact ⟨n, (Nat.add_assoc _ _ _).symm, rfl⟩

theorem le (h : Onward position text position' text') : position ≤ position' := by
  obtain ⟨n, rfl, -⟩ := h
  exact Nat.le_add_right _ _

theorem source {source : Text} (h : Onward position text position' text')
    (hsource : source.drop position = text) : source.drop position' = text' := by
  obtain ⟨n, rfl, rfl⟩ := h
  rw [← hsource, List.drop_drop]

end Onward

namespace LineHead

/-- A head further on in the same line. -/
def Leads (first second : LineHead) : Prop :=
  Onward first.taken first.rest second.taken second.rest

theorem leads_takeColumns (taken stop columns : Nat) (text : Text) :
    Onward taken text (takeColumns taken stop columns text).2.taken
      (takeColumns taken stop columns text).2.rest := by
  induction text generalizing taken stop columns with
  | nil => exact .refl _ _
  | cons c rest ih =>
      have hstep : Onward taken (c :: rest) (taken + 1) rest := ⟨1, rfl, rfl⟩
      unfold takeColumns
      simp only
      split
      · exact .refl _ _
      split
      · exact hstep.trans (ih _ _ _)
      split
      · split
        · exact hstep
        · exact hstep.trans (ih _ _ _)
      · exact .refl _ _

variable (head : LineHead)

theorem leads_takeMissing (columns : Nat) : Leads head (head.takeMissing columns).2 := by
  unfold takeMissing
  split
  · exact Onward.refl _ _
  · exact leads_takeColumns _ _ _ _

theorem leads_takeExactly (columns : Nat) : Leads head (head.takeExactly columns).2 :=
  leads_takeMissing head columns

theorem leads_takeUpTo (columns : Nat) : Leads head (head.takeUpTo columns).2 :=
  leads_takeMissing head columns

theorem leads_advance (n : Nat) : Leads head (head.advance n) := ⟨n, rfl, rfl⟩

theorem leads_takeAll : Leads head head.takeAll := by
  refine ⟨countWhile (fun c => c = ' ' || c = '\t') head.rest, rfl, ?_⟩
  exact (Text.drop_length_takeWhile _ _).symm

variable {head}

theorem leads_quoteMarker? {next : LineHead} (h : head.quoteMarker? = some next) :
    Leads head next := by
  unfold quoteMarker? at h
  split at h
  · cases h
    exact (leads_advance head 1).trans (leads_takeExactly _ 1)
  · cases h

theorem leads_continue? {container : Container} {next : LineHead}
    (h : head.continue? container = some next) : Leads head next := by
  have hindented {columns : Nat}
      (h : (if (head.takeExactly columns).1 || (head.takeExactly columns).2.atEol then
        some (head.takeExactly columns).2 else none) = some next) : Leads head next := by
    split at h
    · cases h
      exact leads_takeExactly head columns
    · cases h
  cases container with
  | quote => exact (leads_takeExactly head 3).trans (leads_quoteMarker? h)
  | list tight marker number =>
      cases h
      exact Onward.refl _ _
  | item indent => exact hindented h
  | footnote label => exact hindented h

theorem leads_continuation (containers : List Container) (head : LineHead) :
    Leads head (continuation containers head).2 := by
  induction containers generalizing head with
  | nil => exact Onward.refl _ _
  | cons container containers ih =>
      unfold continuation
      split
      · next next hnext => exact (leads_continue? hnext).trans (ih next)
      · exact Onward.refl _ _

theorem onward_within (containers : List Container) (position : Nat) (text : Text) :
    Onward position text (position + (within containers text).2.taken)
      (within containers text).2.rest :=
  (leads_continuation containers (start text)).shift position

theorem Leads.onward {next : LineHead} (h : Leads head next) {position start : Nat} {text : Text}
    (hhead : Onward position text (start + head.taken) head.rest) :
    Onward position text (start + next.taken) next.rest :=
  hhead.trans (h.shift start)

theorem leads_finish {marker : Char} {number width indent : Nat} {found : ItemMarker}
    {next : LineHead}
    (h : itemMarker?.finish indent head marker number width = some (found, next)) :
    Leads head next := by
  have hspaced := (leads_advance head width).trans (leads_takeExactly _ 1)
  unfold itemMarker?.finish at h
  simp only at h
  split at h
  · cases h
  split at h
  · cases h
    exact hspaced
  split at h
  · cases h
    exact hspaced.trans (leads_takeUpTo _ 4)
  · cases h
    exact hspaced

theorem leads_itemMarker? {indent : Nat} {marker : ItemMarker} {next : LineHead}
    (h : head.itemMarker? indent = some (marker, next)) : Leads head next := by
  unfold itemMarker? at h
  split at h
  · cases h
  split at h
  · split at h
    · cases h
    · exact leads_finish h
  · obtain ⟨⟨n, delimiter, number⟩, -, hfinish⟩ := Option.bind_eq_some_iff.mp h
    exact leads_finish hfinish

theorem leads_taskMarker? {checked : Bool} {boxed : LineHead}
    (h : head.taskMarker? = some (checked, boxed)) : Leads head boxed := by
  have hbox := (leads_takeUpTo head 3).trans (leads_advance _ 3)
  unfold taskMarker? at h
  simp only at h
  split at h
  · split at h
    · cases h
    split at h
    · cases h
      exact hbox
    split at h
    · cases h
      exact hbox
    · cases h
  · cases h

end LineHead

theorem Table.onward_head? {containers : List Container} {paired : Bool} {text rest : Text}
    {n : Nat} (h : Table.head? containers paired text = some (n, rest)) (position : Nat) :
    Onward position text (position + n) rest := by
  unfold Table.head? at h
  simp only at h
  split at h
  · cases h
  split at h
  · cases h
  obtain ⟨⟨columns, length⟩, -, h⟩ := Option.bind_eq_some_iff.mp h
  split at h
  · cases h
    have hline := (Onward.refl position text).drop (countWhile (fun c => c ≠ '\n' && c ≠ '\r') text
      + (eol? (text.drop (countWhile (fun c => c ≠ '\n' && c ≠ '\r') text))).getD 0)
    have hwithin := (hline.trans (LineHead.onward_within containers _ _)).drop length
    simpa only [Nat.add_assoc] using hwithin
  · cases h

theorem TokenLine.onward_read (extensions : Extensions) (tokens : List Token) (position : Nat)
    (text : Text) :
    Onward position text (TokenLine.read extensions tokens position text).position
      (TokenLine.read extensions tokens position text).rest := by
  obtain ⟨hposition, hrest⟩ :=
    @readFrom_line extensions [] tokens position position 0 text (Nat.zero_le _)
  rw [TokenLine.read, hposition, hrest]
  exact ((Onward.refl position text).drop _).drop _

def LeafRead.From (position : Nat) (text : Text) (read : LeafRead) : Prop :=
  Onward position text read.position read.rest

namespace LeafReader

variable (containers : List Container) (position : Nat) (text : Text)

theorem onward_indentedFrom (fuel : Nat) (all : List LocatedPiece) (kept : CodeLines)
    (blank : Bool) (indent : Nat) :
    Onward position text
      (indentedFrom containers fuel all kept blank indent position text).2.2.1
      (indentedFrom containers fuel all kept blank indent position text).2.2.2 := by
  induction fuel generalizing all kept blank indent position text with
  | zero => exact .refl _ _
  | succ fuel ih =>
      have hline := (Onward.refl position text).drop (lineLength text)
      unfold indentedFrom
      simp only
      split
      · exact hline
      · have hnext := (LineHead.leads_takeExactly _ 4).onward
          (hline.trans (LineHead.onward_within containers _ _))
        exact hnext.trans (ih _ _ _ _ _ _)

theorem from_indentedCode (indent : Nat) :
    (indentedCode containers indent position text).1.From position text :=
  onward_indentedFrom containers position text (text.length + 1) [] ⟨[], 0⟩ false indent

theorem onward_fencedFrom (indent : Nat) (char : Char) (size fuel : Nat)
    (pieces : List LocatedPiece) :
    Onward position text (fencedFrom containers indent char size fuel pieces position text).2.2.1
      (fencedFrom containers indent char size fuel pieces position text).2.2.2 := by
  induction fuel generalizing pieces position text with
  | zero => exact .refl _ _
  | succ fuel ih =>
      have hcontent := (LineHead.leads_takeExactly _ indent).onward
        (LineHead.onward_within containers position text)
      unfold fencedFrom
      simp only
      split
      · exact .refl _ _
      split
      · have hclosing := (LineHead.leads_takeExactly _ (4 - indent)).onward hcontent
        exact (hclosing.drop _).drop _
      · exact (hcontent.drop _).trans (ih _ _ _)

theorem from_fencedCode (indent : Nat) (char : Char) (size : Nat) :
    (fencedCode containers indent position char size text).From position text := by
  have hinfo := (((Onward.refl position text).drop size).drop
    (countWhile Ascii.isBlank (text.drop size))).drop (lineLength
      ((text.drop size).drop (countWhile Ascii.isBlank (text.drop size))))
  exact hinfo.trans (onward_fencedFrom containers _ _ indent char size (text.length + 1) [])

theorem onward_metadataFrom (fuel : Nat) (pieces : List LocatedPiece) :
    Onward position text (metadataFrom containers fuel pieces position text).2.1
      (metadataFrom containers fuel pieces position text).2.2 := by
  induction fuel generalizing pieces position text with
  | zero => exact .refl _ _
  | succ fuel ih =>
      unfold metadataFrom
      simp only
      split
      · exact .refl _ _
      split
      · exact (Onward.refl position text).drop _
      · exact ((LineHead.onward_within containers position text).drop _).trans (ih _ _ _)

theorem from_metadata : (metadata containers position text).From position text := by
  have hopening := (Onward.refl position text).drop (lineLength text)
  have hlines := hopening.trans (onward_metadataFrom containers _ _ (text.length + 1) [])
  exact hlines.drop _

theorem onward_htmlFrom (ends : HtmlEnd) (fuel : Nat) (pieces : List LocatedPiece)
    (indent : Nat) :
    Onward position text (htmlFrom containers ends fuel pieces indent position text).2.2.1
      (htmlFrom containers ends fuel pieces indent position text).2.2.2 := by
  induction fuel generalizing pieces indent position text with
  | zero => exact .refl _ _
  | succ fuel ih =>
      have hline := (Onward.refl position text).drop (lineLength text)
      unfold htmlFrom
      simp only
      split
      · exact hline
      · exact (hline.trans (LineHead.onward_within containers _ _)).trans (ih _ _ _ _)

theorem from_html (ends : HtmlEnd) (indent : Nat) :
    (html containers ends indent position text).From position text :=
  onward_htmlFrom containers position text ends (text.length + 1) [] indent

theorem from_heading (extensions : Extensions) (level : Nat) :
    (heading extensions position level text).From position text := by
  have hlevel := (Onward.refl position text).drop level
  unfold heading
  simp only
  split
  · exact hlevel.drop _
  · exact (hlevel.drop _).trans (TokenLine.onward_read extensions [] _ _)

theorem onward_tableRows (extensions : Extensions) (columns fuel missing : Nat) :
    Onward position text
      (tableRows extensions containers columns fuel missing position text).1
      (tableRows extensions containers columns fuel missing position text).2 := by
  induction fuel generalizing missing position text with
  | zero => exact .refl _ _
  | succ fuel ih =>
      have hrow := (LineHead.leads_takeAll _).onward
        (LineHead.onward_within containers position text)
      unfold tableRows
      simp only
      split
      · exact .refl _ _
      · exact (hrow.drop _).trans (ih _ _ _)

theorem from_paragraphFrom (extensions : Extensions) (start fuel : Nat) (tokens : List Token) :
    (paragraphFrom extensions containers start fuel tokens position text).From position text := by
  induction fuel generalizing tokens position text with
  | zero => exact Onward.refl _ _
  | succ fuel ih =>
      have hline := TokenLine.onward_read extensions tokens position text
      have hnext := (LineHead.leads_takeExactly _ 4).onward
        (hline.trans (LineHead.onward_within containers _ _))
      unfold paragraphFrom
      simp only
      split
      · exact hnext.drop _
      split
      · exact hline
      · exact ((LineHead.leads_takeAll _).onward hnext).trans (ih _ _ _)

theorem from_paragraph (extensions : Extensions) (task : Option Token) :
    (paragraph extensions containers task position text).From position text := by
  unfold paragraph
  simp only
  split
  · next n rest hhead =>
      have hhead : (if (extensions.tables && !endsEscaped text) = true then
          Table.head? containers true text else none) = some (n, rest) := hhead
      split at hhead
      · exact (Table.onward_head? hhead position).trans
          (onward_tableRows containers _ _ extensions _ _ _)
      · cases hhead
  · exact from_paragraphFrom containers position text extensions _ _ _

end LeafReader

end Canonmark.Source
