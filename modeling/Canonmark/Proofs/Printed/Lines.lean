import Canonmark.Proofs.Printed.Markers
import Canonmark.Proofs.Text.Split

/-!
# Lines that are printed

What the printer puts together as text are the lines of settled blocks, each carried by the
containers around it.
-/

namespace Canonmark.Printed

open Text (splitLines joinWith)

def markLine (marker line : Text) : Text :=
  if line.isEmpty && Unicode.isBlank marker then [] else marker ++ line

theorem feed_markLine {marker line : Text} (hmarker : '\n' ∉ marker) (hline : '\n' ∉ line) :
    '\n' ∉ markLine marker line := by
  unfold markLine
  split
  · simp
  · simp [hmarker, hline]

theorem splitLines_markLines {body first rest line : Text} {lines : List Text}
    (hfirst : '\n' ∉ first) (hrest : '\n' ∉ rest) (hsplit : splitLines body = line :: lines) :
    splitLines (Printer.markLines body first rest)
      = markLine first line :: lines.map (markLine rest) := by
  have hfeeds (line : Text) (hmem : line ∈ splitLines body) : '\n' ∉ line :=
    Text.not_mem_of_mem_splitLines hmem
  rw [hsplit] at hfeeds
  rw [Printer.markLines, hsplit]
  refine Text.splitLines_joinLines (List.cons_ne_nil _ _) fun marked hmem => ?_
  rcases List.mem_cons.mp hmem with rfl | hmem
  · exact feed_markLine hfirst (hfeeds line List.mem_cons_self)
  · obtain ⟨line, hinner, rfl⟩ := List.mem_map.mp hmem
    exact feed_markLine hrest (hfeeds line (List.mem_cons_of_mem _ hinner))

theorem splitLines_quoteLines (body : Text) :
    splitLines (Printer.quoteLines body) = (splitLines body).map Level.quote.mark := by
  obtain ⟨line, lines, hsplit⟩ := List.exists_cons_of_ne_nil (Text.splitLines_ne_nil body)
  have hvisible : Unicode.isBlank Printer.quoteMarker = false := rfl
  have hmark : markLine Printer.quoteMarker = Level.quote.mark := by
    funext line
    rw [markLine, hvisible, Bool.and_false, if_neg (by decide)]
    rfl
  rw [Printer.quoteLines, splitLines_markLines (by decide) (by decide) hsplit, hsplit, hmark]
  rfl

theorem splitLines_itemLines {marker body : Text} (h : IsMarker marker) (hsome : body ≠ []) :
    splitLines (Printer.itemLines marker body) = hang marker (splitLines body) := by
  obtain ⟨line, lines, hsplit⟩ := List.exists_cons_of_ne_nil (Text.splitLines_ne_nil body)
  have hone : '\n' ∉ marker ++ [' '] := by simp [h.oneLine.1]
  have hspaces : '\n' ∉ List.replicate (Text.utf8Size marker + 1) ' ' := by
    simp [List.mem_replicate]
  have hblank : Unicode.isBlank (List.replicate (Text.utf8Size marker + 1) ' ') = true := by
    simp [Unicode.isBlank, Unicode.isWhitespace]
  have hfilled : body.isEmpty = false := by simpa using hsome
  have hfirst : markLine (marker ++ [' ']) line = marker ++ ' ' :: line := by
    rw [markLine, h.isBlank, Bool.and_false, if_neg (by decide), List.append_assoc,
      List.singleton_append]
  have hrest : markLine (List.replicate (Text.utf8Size marker + 1) ' ')
      = hung (marker.length + 1) := by
    funext line
    rw [markLine, hblank, Bool.and_true, h.utf8Size]
    rfl
  rw [Printer.itemLines, hfilled, if_neg (by decide), splitLines_markLines hone hspaces hsplit,
    hsplit, hfirst, hrest]
  rfl

theorem splitLines_separator (tight : Bool) (first second : Text) :
    splitLines (first ++ Printer.separator tight ++ second)
      = splitLines first ++ List.replicate ((itemSpacing tight).gap false false) []
          ++ splitLines second := by
  cases tight with
  | true =>
      simp only [Printer.separator, if_true, List.append_assoc, List.singleton_append,
        Text.splitLines_append]
      rfl
  | false =>
      have hgap : Printer.separator false ++ second = '\n' :: '\n' :: second := rfl
      rw [List.append_assoc, hgap, Text.splitLines_append, Text.splitLines_feed]
      simp [itemSpacing, Spacing.gap]

def Prints (block : Block) : Prop := splitLines (Printer.block block) = lines block

theorem Prints.feed {block : Block} (h : Prints block) : ∀ line ∈ lines block, '\n' ∉ line := by
  intro line hmem
  rw [← h] at hmem
  exact Text.not_mem_of_mem_splitLines hmem

theorem gap_itemSpacing (tight isHeading isLast : Bool) :
    (itemSpacing tight).gap isHeading isLast = (itemSpacing tight).gap false isLast := by
  cases tight <;> rfl

theorem gap_itemSpacing_last (tight isHeading : Bool) :
    (itemSpacing tight).gap isHeading true = 0 := by
  cases tight <;> rfl

theorem splitLines_blocks (tight : Bool) {blocks : List Block} (hsome : blocks ≠ [])
    (h : ∀ block ∈ blocks, Prints block) :
    splitLines (joinWith (Printer.separator tight) (Printer.blocks blocks))
      = allLines (itemSpacing tight) blocks := by
  induction blocks with
  | nil => exact absurd rfl hsome
  | cons block rest ih =>
      have hfirst : splitLines (Printer.block block) = lines block := h block List.mem_cons_self
      cases rest with
      | nil =>
          simp only [Printer.blocks, joinWith, allLines, List.isEmpty_nil, gap_itemSpacing_last]
          simpa using hfirst
      | cons next rest =>
          have hlater := ih (List.cons_ne_nil next rest) fun block hmem =>
            h block (List.mem_cons_of_mem _ hmem)
          rw [Printer.blocks] at hlater ⊢
          have hall : allLines (itemSpacing tight) (block :: next :: rest)
              = lines block
                ++ List.replicate ((itemSpacing tight).gap (isHeading block) false) []
                ++ allLines (itemSpacing tight) (next :: rest) := rfl
          rw [Printer.blocks, joinWith, splitLines_separator, hfirst, hlater, hall,
            gap_itemSpacing tight (isHeading block)]

theorem splitLines_blankLine (first second : Text) :
    splitLines (first ++ Printer.blankLine ++ second)
      = splitLines first ++ [] :: splitLines second := by
  have hgap : Printer.blankLine ++ second = '\n' :: '\n' :: second := rfl
  rw [List.append_assoc, hgap, Text.splitLines_append, Text.splitLines_feed]

theorem splitLines_quoted {blocks : List Block} (hsome : blocks ≠ [])
    (h : ∀ block ∈ blocks, Prints block) :
    splitLines ((Printer.blocks blocks).flatMap (· ++ Printer.blankLine))
      = allLines .quoted blocks := by
  induction blocks with
  | nil => exact absurd rfl hsome
  | cons block rest ih =>
      have hfirst : splitLines (Printer.block block) = lines block := h block List.mem_cons_self
      rw [Printer.blocks, List.flatMap_cons, splitLines_blankLine, hfirst, allLines]
      cases rest with
      | nil => simp [Printer.blocks, allLines, Spacing.gap, splitLines]
      | cons next rest =>
          rw [ih (List.cons_ne_nil next rest) fun block hmem =>
            h block (List.mem_cons_of_mem _ hmem)]
          simp [Spacing.gap]

theorem splitLines_quoteBody {blocks : List Block} (hsome : blocks ≠ [])
    (h : ∀ block ∈ blocks, Prints block) :
    splitLines (Printer.quoteBody (Printer.blocks blocks))
      = allLines (quoteSpacing blocks) blocks := by
  cases blocks with
  | nil => exact absurd rfl hsome
  | cons block rest =>
      have hfirst : splitLines (Printer.block block) = lines block := h block List.mem_cons_self
      cases rest with
      | nil =>
          have halone : quoteSpacing [block] = .loose := rfl
          rw [halone]
          simpa [Printer.blocks, Printer.quoteBody, allLines, Spacing.gap] using hfirst
      | cons next rest =>
          have hseveral : quoteSpacing (block :: next :: rest) = .quoted :=
            if_neg (by simp)
          rw [hseveral]
          exact splitLines_quoted hsome h

def itemsFrom (kind : ListKind) (tight : Bool) (index : Nat) (items : List (List Text)) : Text :=
  joinWith (Printer.separator tight) (items.mapIdx fun n texts =>
    Printer.itemLines (Printer.itemMarker kind (index + n))
      (joinWith (Printer.separator tight) texts))

theorem listBody_eq (kind : ListKind) (tight : Bool) (items : List (List Text)) :
    Printer.listBody kind tight items = itemsFrom kind tight 0 items := by
  simp [Printer.listBody, itemsFrom]

def ItemPrints (tight : Bool) (item : List Block) : Prop :=
  joinWith (Printer.separator tight) (Printer.blocks item) ≠ [] ∧
    splitLines (joinWith (Printer.separator tight) (Printer.blocks item))
      = allLines (itemSpacing tight) item

theorem splitLines_items {kind : ListKind} {count : Nat} (hkind : settledKind count kind = true)
    (tight : Bool) {index : Nat} {items : List (List Block)} (hsome : items ≠ [])
    (hless : index + items.length ≤ count) (h : ∀ item ∈ items, ItemPrints tight item) :
    splitLines (itemsFrom kind tight index (Printer.itemTexts items))
      = itemLines kind (itemSpacing tight) index items := by
  induction items generalizing index with
  | nil => exact absurd rfl hsome
  | cons item rest ih =>
      rw [List.length_cons] at hless
      obtain ⟨hfilled, hcontent⟩ := h item List.mem_cons_self
      have hmarks := marks_itemMarker hkind (show index < count by omega)
      have hfirst := splitLines_itemLines hmarks.isMarker hfilled
      rw [hcontent] at hfirst
      cases rest with
      | nil =>
          simp only [itemsFrom, Printer.itemTexts, List.mapIdx_cons, List.mapIdx_nil, joinWith,
            Nat.add_zero, itemLines, List.isEmpty_nil, gap_itemSpacing_last]
          simpa using hfirst
      | cons next rest =>
          have hlater := @ih (index + 1) (List.cons_ne_nil next rest) (by omega) fun item hmem =>
            h item (List.mem_cons_of_mem _ hmem)
          have hsplit : itemsFrom kind tight index (Printer.itemTexts (item :: next :: rest))
              = Printer.itemLines (Printer.itemMarker kind index)
                  (joinWith (Printer.separator tight) (Printer.blocks item))
                ++ Printer.separator tight
                ++ itemsFrom kind tight (index + 1) (Printer.itemTexts (next :: rest)) := by
            simp only [itemsFrom, Printer.itemTexts, List.mapIdx_cons, joinWith, Nat.add_zero,
              Nat.add_assoc, Nat.add_comm 1]
          have hall : itemLines kind (itemSpacing tight) index (item :: next :: rest)
              = hang (Printer.itemMarker kind index) (allLines (itemSpacing tight) item)
                ++ List.replicate ((itemSpacing tight).gap false false) []
                ++ itemLines kind (itemSpacing tight) (index + 1) (next :: rest) := rfl
          rw [hsplit, splitLines_separator, hfirst, hlater, hall]

/-- A heading has no line feed in its text: what stands there is a space. -/
theorem feed_spaced (text : Text) : '\n' ∉ text.map fun c => if c = '\n' then ' ' else c := by
  intro hmem
  obtain ⟨c, -, hsame⟩ := List.mem_map.mp hmem
  split at hsame
  · cases hsame
  · next hother => exact hother hsame

theorem feed_heading (level : Nat) (content : List Inline) :
    '\n' ∉ Printer.heading level content := by
  have htext := feed_spaced (Printer.inlines content)
  have hhashes : '\n' ∉ List.replicate level '#' := by simp [List.mem_replicate]
  simp only [Printer.heading]
  split
  · exact hhashes
  · simp only [List.mem_append, List.mem_cons, not_or]
    exact ⟨hhashes, by decide, htext⟩

theorem startsItem_cons {extensions : Extensions} {marker : Text} {content : List Text}
    (h : startsItem extensions marker content = true) :
    ∃ first later, content = first :: later ∧ Visible first := by
  cases content with
  | nil => cases h
  | cons first later =>
      simp only [startsItem, List.head?_cons, Option.any_some, Bool.and_eq_true] at h
      exact ⟨first, later, rfl, visible_of_isVisible h.1.1⟩

variable {extensions : Extensions}

mutual

theorem prints_block : (block : Block) → settled extensions block = true → Prints block
  | .paragraph content, _ => rfl
  | .heading level content, _ => Text.splitLines_line (feed_heading level content)
  | .quote depth children, h => by
      simp only [settled, Bool.and_eq_true, Bool.not_eq_true', List.isEmpty_eq_false_iff] at h
      rw [Prints, Printer.block, splitLines_quoteLines,
        splitLines_quoteBody h.1 (prints_blocks children h.2), lines]
  | .list kind tight items, h => by
      simp only [settled, Bool.and_eq_true, Bool.not_eq_true', List.isEmpty_eq_false_iff] at h
      rw [Prints, Printer.block, listBody_eq, lines]
      exact splitLines_items h.1.2 tight h.1.1 (by omega) (prints_items items h.2)
  | .verbatim content, _ => rfl

theorem prints_blocks : {spacing : Spacing} → (blocks : List Block) →
    allSettled extensions spacing blocks = true → ∀ block ∈ blocks, Prints block
  | _, [], _ => by simp
  | _, block :: rest, h => by
      simp only [allSettled, Bool.and_eq_true] at h
      intro inner hmem
      rcases List.mem_cons.mp hmem with hsame | hmem
      · exact hsame ▸ prints_block block h.1.1
      · exact prints_blocks rest h.2 inner hmem

theorem prints_items : {kind : ListKind} → {tight : Bool} → {index : Nat} →
    (items : List (List Block)) →
      itemsSettled extensions kind (itemSpacing tight) index items = true →
        ∀ item ∈ items, ItemPrints tight item
  | _, _, _, [], _ => by simp
  | kind, tight, index, item :: rest, h => by
      simp only [itemsSettled, Bool.and_eq_true, Bool.not_eq_true',
        List.isEmpty_eq_false_iff] at h
      intro inner hmem
      rcases List.mem_cons.mp hmem with hsame | hmem
      · have hcontent := splitLines_blocks tight h.1.1.1 (prints_blocks item h.1.1.2)
        obtain ⟨first, later, hshape, c, tail, rfl, -⟩ := startsItem_cons h.1.2
        refine hsame ▸ ⟨fun hempty => ?_, hcontent⟩
        rw [hempty, hshape] at hcontent
        cases hcontent
      · exact prints_items rest h.2 inner hmem

end

theorem below_splitLines (text : Text) : below [] (splitLines text) = text ++ ['\n'] :=
  Text.flatMap_splitLines text

theorem document_cons (compact : Bool) (block : Block) (rest : Document) :
    Printer.document compact (block :: rest) =
      Printer.block block ++ '\n' :: (below [] (List.replicate
        (Spacing.gap (isHeading block) rest.isEmpty (.document compact)) [])
          ++ Printer.document compact rest) := by
  have hgap : (if compact && isHeading block then ['\n'] else Printer.blankLine)
      = '\n' :: below [] (List.replicate
          (Spacing.gap (isHeading block) rest.isEmpty (.document compact)) []) := by
    cases compact with
    | false => rfl
    | true => cases block <;> rfl
  have hprinted : Printer.document compact (block :: rest)
      = Printer.block block ++ (if compact && isHeading block then ['\n'] else Printer.blankLine)
        ++ Printer.document compact rest := by
    cases block <;> rfl
  rw [hprinted, hgap, List.append_assoc, List.cons_append]

/-- A document is printed in the lines of its blocks. -/
theorem document_of_prints (compact : Bool) {document : Document}
    (hprints : ∀ block ∈ document, Prints block) :
    Printer.document compact document = below [] (allLines (.document compact) document) := by
  induction document with
  | nil => rfl
  | cons block rest ih =>
      have hfirst : splitLines (Printer.block block) = lines block :=
        hprints block List.mem_cons_self
      have hlater := ih fun block hmem => hprints block (List.mem_cons_of_mem _ hmem)
      rw [document_cons, hlater, allLines, below_append, below_append, ← hfirst, below_splitLines]
      simp

theorem document_eq (compact : Bool) {document : Document} {spacing : Spacing}
    (h : allSettled extensions spacing document = true) :
    Printer.document compact document = below [] (allLines (.document compact) document) :=
  document_of_prints compact (prints_blocks document h)

end Canonmark.Printed
