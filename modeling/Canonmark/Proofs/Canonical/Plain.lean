import Canonmark.Proofs.Canonical.Outline
import Canonmark.Proofs.Canonical.Quoting
import Canonmark.Proofs.Printed.PlainDocument

/-!
# Canonical sources of plain blocks

A canonical source of plain blocks is read as these blocks, with the references in their lines as
text again. So it is canonical already, unless one of its lines is not as it would be quoted.
-/

namespace Canonmark.Canonical

open Printed

variable {extensions : Extensions} {block : Block}

theorem length_le_quoted (known : Text → Bool) (line : Text) :
    line.length ≤ (quoted known line).length := by
  rw [quoted_eq_quoteFrom]
  exact length_le_quoteFrom known none line

theorem printed_textLines (known : Text → Bool) (lines : List Text) :
    Printer.inlines (toldAll known 0 (XrefShortcut.splitAll (Builder.textLines lines)))
      = Text.joinLines (lines.map (quoted known)) := by
  have hsingle (line : Text) : XrefShortcut.splitAll [.leaf (.text line)] =
      (XrefShortcut.split line).map .leaf := List.append_nil _
  have hline (line : Text) :
      ((XrefShortcut.split line).flatMap fun content => Printer.leaf (toldLeaf known content))
        = quoted known line := by
    rw [quoted, hsingle, printed_leaves]
  obtain ⟨leaves, hsame, hprinted⟩ : ∃ leaves : List Leaf,
      XrefShortcut.splitAll (Builder.textLines lines) = leaves.map .leaf ∧
        (leaves.flatMap fun content => Printer.leaf (toldLeaf known content))
          = Text.joinLines (lines.map (quoted known)) := by
    induction lines with
    | nil => exact ⟨[], rfl, rfl⟩
    | cons line rest ih =>
        cases rest with
        | nil => exact ⟨XrefShortcut.split line, hsingle line, hline line⟩
        | cons next rest =>
            obtain ⟨leaves, hsame, hprinted⟩ := ih
            refine ⟨XrefShortcut.split line ++ .softBreak :: leaves, ?_, ?_⟩
            · rw [List.map_append, List.map_cons, ← hsame, ← hsingle, Builder.textLines,
                List.map_cons, List.map_cons, VideoDirective.joinLines_cons_cons,
                XrefShortcut.splitAll, List.flatMap_append, List.flatMap_cons]
              rfl
            · rw [List.flatMap_append, List.flatMap_cons, hline, hprinted]
              simp only [Text.joinLines, List.map_cons, Text.joinWith, List.append_assoc]
              rfl
  rw [hsame, printed_leaves, hprinted]

theorem length_le_joinLines (known : Text → Bool) (lines : List Text) :
    (Text.joinLines lines).length ≤ (Text.joinLines (lines.map (quoted known))).length := by
  induction lines with
  | nil => exact Nat.le_refl 0
  | cons line rest ih =>
      have hfirst := length_le_quoted known line
      cases rest with
      | nil => exact hfirst
      | cons next rest =>
          simp only [Text.joinLines, List.map_cons, Text.joinWith, List.length_append] at ih ⊢
          omega

theorem joinLines_quoted_iff (known : Text → Bool) (lines : List Text) :
    Text.joinLines (lines.map (quoted known)) = Text.joinLines lines ↔
      ∀ line ∈ lines, quoted known line = line := by
  induction lines with
  | nil => simp
  | cons line rest ih =>
      cases rest with
      | nil => simp [Text.joinLines, Text.joinWith]
      | cons next rest =>
          have hlonger := length_le_joinLines known (next :: rest)
          rw [List.forall_mem_cons, ← ih]
          simp only [Text.joinLines, List.map_cons, Text.joinWith, List.append_assoc,
            List.singleton_append] at hlonger ⊢
          exact append_cons_inj (length_le_quoted known line) hlonger

def written (block : Block) (lines : List Text) : Text :=
  match block, lines with
  | .paragraph _, lines => Text.joinLines lines
  | .heading level _, [] => List.replicate level '#'
  | .heading level _, text :: _ => List.replicate level '#' ++ ' ' :: text
  | block, _ => Printer.block block

theorem written_textOf (block : Block) : written block (textOf block) = Printer.block block := by
  cases block with
  | paragraph content => exact Text.joinLines_splitLines _
  | heading level content =>
      rw [textOf, Printer.block, heading_eq]
      split <;> rfl
  | _ => rfl

theorem printed_reread (known : Text → Bool) (hplain : isPlain extensions block = true) :
    Printer.block (toldBlock known (reread block)) =
      written block ((textOf block).map (quoted known)) := by
  cases block with
  | paragraph content =>
      rw [reread, toldBlock_paragraph]
      exact printed_textLines known _
  | heading level content =>
      rw [reread, toldBlock_heading, Printer.block, heading_eq, headingText, printed_textLines,
        textOf]
      split
      · rfl
      · next hsome =>
          have hsame : Text.joinLines ([headingText content].map (quoted known))
              = quoted known (headingText content) := rfl
          have hfeed := feed_quoted known (feed_spaced (Printer.inlines content))
          have hfilled : ¬(quoted known (headingText content)).isEmpty = true := by
            have hlonger := length_le_quoted known (headingText content)
            rw [List.isEmpty_iff_length_eq_zero] at hsome ⊢
            omega
          have hkept : (quoted known (headingText content)).map
                (fun c => if c = '\n' then ' ' else c)
              = quoted known (headingText content) := by
            refine (List.map_congr_left fun c hmem => if_neg ?_).trans (List.map_id _)
            rintro rfl
            exact hfeed hmem
          rw [hsame, hkept, if_neg hfilled]
          rfl
  | quote depth children => simp [isPlain] at hplain
  | list kind tight items => simp [isPlain] at hplain
  | verbatim content =>
      cases content with
      | html html => cases settled_of_isPlain hplain
      | _ => rfl

/-- A plain block that is read again is printed as it was, if its lines are quoted already. -/
theorem printed_reread_iff (known : Text → Bool) (hplain : isPlain extensions block = true) :
    Printer.block (toldBlock known (reread block)) = Printer.block block ↔
      ∀ line ∈ textOf block, quoted known line = line := by
  rw [printed_reread known hplain, ← written_textOf]
  cases block with
  | paragraph content => exact joinLines_quoted_iff known _
  | heading level content =>
      rw [textOf]
      split <;> simp [written]
  | _ => simp [written, textOf]

theorem length_le_printed_reread (known : Text → Bool) (hplain : isPlain extensions block = true) :
    (Printer.block block).length ≤ (Printer.block (toldBlock known (reread block))).length := by
  rw [printed_reread known hplain, ← written_textOf]
  cases block with
  | paragraph content => exact length_le_joinLines known _
  | heading level content =>
      cases textOf (.heading level content) with
      | nil => exact Nat.le_refl _
      | cons text _ =>
          have hlonger := length_le_quoted known text
          simp only [List.map_cons, written, List.length_append, List.length_cons]
          omega
  | _ => exact Nat.le_refl _

theorem isHeading_reread (known : Text → Bool) (block : Block) :
    isHeading (toldBlock known (reread block)) = isHeading block := by
  cases block <;> simp [reread, isHeading]

theorem length_le_printed_document (known : Text → Bool) (compact : Bool) {blocks : Document}
    (hplain : ∀ block ∈ blocks, isPlain extensions block = true) :
    (Printer.document compact blocks).length ≤
      (Printer.document compact (toldBlocks known (blocks.map reread))).length := by
  induction blocks with
  | nil => simp
  | cons block rest ih =>
      obtain ⟨hfirst, hothers⟩ := List.forall_mem_cons.mp hplain
      have hlonger := length_le_printed_reread known hfirst
      have hmore := ih hothers
      rw [List.map_cons, toldBlocks_cons, document_cons, document_cons, isHeading_reread]
      simp only [Spacing.gap, List.length_append, List.length_cons] at hmore ⊢
      omega

theorem printed_document_iff (known : Text → Bool) (compact : Bool) {blocks : Document}
    (hplain : ∀ block ∈ blocks, isPlain extensions block = true) :
    Printer.document compact (toldBlocks known (blocks.map reread)) =
        Printer.document compact blocks ↔
      ∀ block ∈ blocks, ∀ line ∈ textOf block, quoted known line = line := by
  induction blocks with
  | nil => simp
  | cons block rest ih =>
      obtain ⟨hfirst, hothers⟩ := List.forall_mem_cons.mp hplain
      have hlonger := length_le_printed_reread known hfirst
      have hmore := length_le_printed_document known compact hothers
      rw [List.forall_mem_cons, ← printed_reread_iff known hfirst, ← ih hothers, List.map_cons,
        toldBlocks_cons, document_cons, document_cons, isHeading_reread]
      simp only [Spacing.gap]
      rw [append_cons_inj hlonger (by simpa using hmore), List.append_cancel_left_eq]

theorem source_document_iff (settings : Settings) (scope : Scope) {blocks : Document}
    (hplain : ∀ block ∈ blocks, isPlain settings.extensions block = true)
    (hcarriage : '\r' ∉ Printer.document settings.compactHeadings blocks)
    (hunwrapped : settings.spacedDestinations = true →
      SpacedDestination.spans (Printer.document settings.compactHeadings blocks) = []) :
    (source settings scope (Printer.document settings.compactHeadings blocks)).value =
        Printer.document settings.compactHeadings blocks ↔
      ∀ block ∈ blocks, ∀ line ∈ textOf block, quoted scope.knows line = line := by
  rw [← printed_document_iff scope.knows settings.compactHeadings hplain,
    ← read_document hplain hcarriage, ← document_value, ← read_eq hcarriage hunwrapped]
  rfl

/--
Making a source canonical twice is making it canonical once, as far as its blocks are plain and
their lines hold no references that would be quoted again.
-/
theorem source_source_iff (settings : Settings) (scope : Scope) (text : Text)
    (hplain : ∀ block ∈ (document scope (read settings text)).value,
      isPlain settings.extensions block = true)
    (hcarriage : '\r' ∉ (source settings scope text).value)
    (hunwrapped : settings.spacedDestinations = true →
      SpacedDestination.spans (source settings scope text).value = []) :
    (source settings scope (source settings scope text).value).value =
        (source settings scope text).value ↔
      ∀ block ∈ (document scope (read settings text)).value, ∀ line ∈ textOf block,
        quoted scope.knows line = line :=
  source_document_iff settings scope hplain hcarriage hunwrapped

example :
    (Document.read {}
        "Title @a\n====\n\n1 \\* 2 &amp; x_y_z\nmore\n\n~~~ b\n*c*\n~~~\n***\n".toList).all
      (isPlain {}) = true ∧
      (Document.read {} "*a*\n".toList).all (isPlain {}) = false := by
  decide +kernel

end Canonmark.Canonical
