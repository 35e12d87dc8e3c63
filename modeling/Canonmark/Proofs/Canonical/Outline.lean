import Canonmark.Canonical.Source
import Canonmark.Proofs.Destination.Wrapping
import Canonmark.Proofs.Document.Built
import Canonmark.Proofs.Printed.Items

/-!
# Outlines of canonical sources

What is printed for settled blocks is read as these blocks again: paragraphs stay paragraphs,
fenced code keeps its info string and text, and lists their kinds and items. Other documents are
printed in the same way, but a line of text may start a block where it is printed, and a marker
may grow too long.
-/

namespace Canonmark

open Printed

namespace Printed

variable {extensions : Extensions} {source : Text}

mutual

theorem readsBack_block (hcarriage : '\r' ∉ source) : (block : Block) →
    settled extensions block = true → ReadsBack extensions source block
  | .paragraph _, h => readsBack_paragraph hcarriage h
  | .heading _ _, h => readsBack_heading hcarriage h
  | .quote _ children, h => by
      have hinner := h
      rw [settled, Bool.and_eq_true] at hinner
      exact readsBack_quote (readsBack_blocks hcarriage children hinner.2)
  | .list kind tight items, h => by
      have hinner := h
      rw [settled, Bool.and_eq_true, Bool.and_eq_true] at hinner
      exact readsBack_list
        (readsBack_items hcarriage tight hinner.1.2 items (Nat.le_of_eq (Nat.zero_add _)) hinner.2)
        h
  | .verbatim _, h => readsBack_verbatim h

theorem readsBack_blocks (hcarriage : '\r' ∉ source) {spacing : Spacing} : (blocks : List Block) →
    allSettled extensions spacing blocks = true → AllReadBack extensions source spacing blocks
  | [], _ => allReadBack_nil spacing
  | block :: rest, h =>
      allReadBack_cons (readsBack_block hcarriage block (allSettled_cons h).1)
        (readsBack_blocks hcarriage rest (allSettled_cons h).2.2) h

theorem readsBack_items (hcarriage : '\r' ∉ source) {kind : ListKind} (tight : Bool) {count : Nat}
    (hkind : settledKind count kind = true) {index : Nat} : (items : List (List Block)) →
    index + items.length ≤ count →
      itemsSettled extensions kind (itemSpacing tight) index items = true →
        ItemsReadBack extensions source kind (itemSpacing tight) index items
  | [], _, _ => itemsReadBack_nil
  | item :: rest, hless, h => by
      have hlast : (itemSpacing tight).gap false true = 0 := by cases tight <;> rfl
      refine itemsReadBack_cons (readsBack_blocks hcarriage item (itemsSettled_cons h).1)
        (readsBack_items hcarriage tight hkind rest ?_ (itemsSettled_cons h).2.2.2) hlast hkind
        hless h
      rw [List.length_cons] at hless
      omega

end

theorem feed_allLines {spacing : Spacing} {document : Document}
    (h : allSettled extensions spacing document = true) :
    ∀ line ∈ allLines spacing document, '\n' ∉ line := by
  intro line hmem
  induction document with
  | nil => cases hmem
  | cons block rest ih =>
      obtain ⟨hsettled, -, hrestSettled⟩ := allSettled_cons h
      rw [allLines, List.mem_append, List.mem_append] at hmem
      rcases hmem with (hinBlock | hblank) | hinRest
      · exact (prints_block block hsettled).feed line hinBlock
      · obtain ⟨-, rfl⟩ := List.mem_replicate.mp hblank
        exact List.not_mem_nil
      · exact ih hrestSettled hinRest

theorem oneLine_allLines {spacing : Spacing} {document : Document}
    (h : allSettled extensions spacing document = true)
    (hcarriage : '\r' ∉ below [] (allLines spacing document)) :
    ∀ line ∈ allLines spacing document, OneLine line := by
  intro line hmem
  refine ⟨feed_allLines h line hmem, fun hinLine => hcarriage ?_⟩
  exact List.mem_flatMap.mpr ⟨line, hmem, List.mem_append_left _ hinLine⟩

open Source

theorem reads_document {spacing : Spacing} {document : Document}
    (h : allSettled extensions spacing document = true)
    (hsame : source = below [] (allLines spacing document)) (hcarriage : '\r' ∉ source) :
    ∃ last more, Steps { extensions := extensions, position := 0, rest := source } last ∧
      Reads extensions source [] (Draft.append (Block.outlines .free document) ⟨[], []⟩) more last ∧
      last.rest = [] := by
  have hstart : Reads extensions source [] ⟨[], []⟩ []
      { extensions := extensions, position := 0, rest := source } :=
    ⟨⟨rfl, rfl, rfl, rfl⟩, ⟨[], .nil, rfl⟩, rfl⟩
  cases document with
  | nil => exact ⟨_, [], .refl _, hstart, hsame⟩
  | cons block rest =>
      obtain ⟨hsettled, -, -⟩ := allSettled_cons h
      obtain ⟨line, later, hshape⟩ := exists_lines hsettled
      have hall : allLines spacing (block :: rest) = line :: (later ++ List.replicate
          (spacing.gap (isHeading block) rest.isEmpty) [] ++ allLines spacing rest) := by
        rw [allLines, hshape]
        rfl
      have hones := oneLine_allLines h (hsame ▸ hcarriage)
      obtain ⟨last, more, inner, hsteps, hreads, -, hdone⟩ :=
        AllReadBack.arrive (readsBack_blocks hcarriage (block :: rest) h) hstart .nil hall
          (firstLine hsettled hshape).visible (fun hquote => by cases hquote) (hall ▸ hones)
          (.inl rfl)
          (fun _ _ _ hfits => stops_end hfits) (by rw [List.append_nil, ← hall, ← hsame])
      exact ⟨last, more, hsteps, hreads, hdone⟩

end Printed

theorem Document.outline_read_document {extensions : Extensions} {compact : Bool}
    {document : Document} (h : allSettled extensions (.document compact) document = true)
    (hcarriage : '\r' ∉ Printer.document compact document) :
    (Document.read extensions (Printer.document compact document)).outline = document.outline := by
  obtain ⟨last, more, hsteps, hreads, hdone⟩ :=
    reads_document h (document_eq compact h) hcarriage
  have hall := hsteps.readBlocks hdone (Nat.lt_succ_self (Printer.document compact document).length)
  have hclosed : (Source.BlockReader.readSource extensions
        (Printer.document compact document)).draft (Printer.document compact document)
      = Source.Draft.append (Block.outlines .free document) ⟨[], []⟩ := by
    rw [Source.BlockReader.readSource, hall, Source.BlockReader.draft_closeTo]
    exact hreads.draft
  rw [Document.read, Document.outline_readFrom]
  exact congrArg Source.Draft.blocks hclosed

example :
    allSettled {} (.document false)
        [.quote 1 [.list (.ordered 9 '.') true
            [[.paragraph [.leaf (.text "a".toList)]], [.paragraph [.leaf (.text "b".toList)]]]],
          .verbatim (.code (some "~~~".toList) "x".toList "- y\n".toList)] = true ∧
      allSettled {} (.document false)
        [.paragraph [.leaf (.text "a".toList), .leaf .softBreak, .leaf (.text "- b".toList)]]
          = false := by
  decide

namespace Canonical

theorem read_eq {settings : Settings} {text : Text} (hcarriage : '\r' ∉ text)
    (hplain : settings.spacedDestinations = true → SpacedDestination.spans text = []) :
    read settings text = Document.read settings.extensions text := by
  have hunwrapped : (if settings.spacedDestinations then
      SpacedDestination.wrap? text else none) = none := by
    split
    · next hspaced => rw [SpacedDestination.wrap?_eq, hplain hspaced, if_pos rfl]
    · rfl
  rw [read, Text.normalizeNewlines_eq_self hcarriage]
  simp only [hunwrapped]

/-- A canonical source whose blocks are settled, and in which no destination is wrapped, is read
as blocks of the same outline. -/
theorem outline_read_source (settings : Settings) (scope : Scope) (text : Text)
    (h : allSettled settings.extensions (.document settings.compactHeadings)
      (document scope (read settings text)).value = true)
    (hcarriage : '\r' ∉ (source settings scope text).value)
    (hplain : settings.spacedDestinations = true →
      SpacedDestination.spans (source settings scope text).value = []) :
    (read settings (source settings scope text).value).outline
      = Document.outline (document scope (read settings text)).value := by
  rw [read_eq hcarriage hplain]
  exact Document.outline_read_document h hcarriage

end Canonical

end Canonmark
