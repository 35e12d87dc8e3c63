import Canonmark.Proofs.Printed.Neighbours

/-!
# Printed blocks

The lines of settled blocks are read as these blocks: by induction over blocks, each block leaves
the reader behind its last line, in the levels it stood in, with its outline added to the draft.
-/

namespace Canonmark.Printed

open Source

variable {extensions : Extensions} {source : Text} {reader : BlockReader}
variable {levels : List Level} {draft : Draft} {more : List Container}

def Unlike (more : List Container) (marker : Option Char) : Prop :=
  more = [] ∨ ∃ tight other number, more = [.list tight other number] ∧ marker ≠ some other

theorem Unlike.isList {marker : Option Char} (h : Unlike more marker) : IsList more := by
  rcases h with rfl | ⟨tight, other, number, rfl, -⟩
  · exact .inl rfl
  · exact .inr ⟨tight, other, number, rfl⟩

structure Left (block : Block) (more : List Container) : Prop where
  quote : more.head? = some .quote → isQuote block = true
  list : ∀ tight marker number, keptOpen more = [.list tight marker number] →
    listMarker? block = some marker

theorem left_nil (block : Block) : Left block [] where
  quote := fun hnone => by cases hnone
  list := fun _ _ _ hnone => by cases hnone

/-- A reader in front of lines that its levels carry, the first of which starts at a head. -/
structure Entered (extensions : Extensions) (source : Text) (levels : List Level) (draft : Draft)
    (more : List Container) (reader : BlockReader) (taken : Nat) (first : Text) (later : List Text)
    (tail : Text) (fuel : Nat) : Prop where
  reads : Reads extensions source levels draft more reader
  located : source.drop (reader.position + taken) = first ++ '\n' :: (below levels later ++ tail)
  ones : ∀ line ∈ first :: later, OneLine line
  enough : first.length < fuel

/-- A reader that goes on, and comes to stand in levels with a draft, in front of a tail. -/
structure Finds (extensions : Extensions) (source : Text) (levels : List Level) (draft : Draft)
    (left : List Container → Prop) (tail text : Text) (start : BlockReader) : Prop where
  less : start.rest.length < text.length
  found : ∃ last more inner, Steps start last ∧ Reads extensions source levels draft more last ∧
    Fits inner more ∧ last.rest = tail ∧ left more

/-- The paragraph that ends a block, if one does, is stopped by a tail. -/
def StopsAfter (extensions : Extensions) (levels : List Level) (opened : Option (List Level))
    (tail : Text) : Prop :=
  ∀ inner, opened = some inner → ∀ containers, Fits (levels ++ inner) containers →
    Stops extensions containers tail

def ReadsBack (extensions : Extensions) (source : Text) (block : Block) : Prop :=
  ∀ {levels draft more reader taken first later tail fuel},
    Entered extensions source levels draft more reader taken first later tail fuel →
      Unlike more (listMarker? block) → lines block = first :: later →
        StopsAfter extensions levels (openLevels block) tail →
          Finds extensions source levels (draft.append (block.outline (place levels))) (Left block)
            tail (first ++ '\n' :: (below levels later ++ tail))
            (enter fuel (headAt taken (first ++ '\n' :: (below levels later ++ tail))) reader)

def AllReadBack (extensions : Extensions) (source : Text) (spacing : Spacing)
    (blocks : List Block) : Prop :=
  ∀ {levels draft more reader taken first later tail fuel},
    Entered extensions source levels draft more reader taken first later tail fuel →
      Unlike more (blocks.head?.bind listMarker?) → allLines spacing blocks = first :: later →
        StopsAfter extensions levels (lastLevels spacing blocks) tail →
          Finds extensions source levels (draft.append (Block.outlines (place levels) blocks))
            (fun _ => True) tail (first ++ '\n' :: (below levels later ++ tail))
            (enter fuel (headAt taken (first ++ '\n' :: (below levels later ++ tail))) reader)

/-! ## Leaves and quotes -/

theorem finds_leaf {block : Block} {found : Draft} {tail text : Text} {start : BlockReader}
    (h : Reads extensions source levels found [] start ∧ start.rest = tail)
    (hshorter : tail.length < text.length) :
    Finds extensions source levels found (Left block) tail text start :=
  ⟨h.2 ▸ hshorter, start, [], [], .refl start, h.1, .nil, h.2, left_nil block⟩

theorem length_tail_lt (first tail : Text) (later : List Text) :
    tail.length < (first ++ '\n' :: (below levels later ++ tail)).length := by
  simp only [List.length_append, List.length_cons]
  omega

theorem readsBack_paragraph (hcarriage : '\r' ∉ source) {content : List Inline}
    (h : settled extensions (.paragraph content) = true) :
    ReadsBack extensions source (.paragraph content) := by
  intro levels draft more reader taken first later tail fuel hentered hunlike hprinted hstops
  rw [settled] at h
  rw [lines] at hprinted
  rw [hprinted] at h
  have hstopped : ∀ containers, Fits levels containers → Stops extensions containers tail :=
    fun containers hfits => hstops [] rfl containers (by rwa [List.append_nil])
  exact finds_leaf
    (hentered.reads.text hunlike.isList hcarriage h hentered.ones hstopped hentered.located fuel)
    (length_tail_lt first tail later)

theorem readsBack_heading (hcarriage : '\r' ∉ source) {level : Nat} {content : List Inline}
    (h : settled extensions (.heading level content) = true) :
    ReadsBack extensions source (.heading level content) := by
  intro levels draft more reader taken first later tail fuel hentered hunlike hprinted hstops
  simp only [settled, Bool.and_eq_true, decide_eq_true_eq] at h
  simp only [lines, List.cons.injEq] at hprinted
  obtain ⟨rfl, rfl⟩ := hprinted
  exact finds_leaf (hentered.reads.heading hunlike.isList hcarriage h.1 h.2 content hentered.located
    fuel) (length_tail_lt _ tail [])

theorem readsBack_verbatim {content : Verbatim}
    (h : settled extensions (.verbatim content) = true) :
    ReadsBack extensions source (.verbatim content) := by
  intro levels draft more reader taken first later tail fuel hentered hunlike hprinted hstops
  cases content with
  | code fence info text =>
      cases fence with
      | none => cases h
      | some fence =>
          obtain ⟨c, hparts⟩ := exists_codeParts h
          obtain ⟨code, hsame, hopen, hsplit⟩ := hparts.lines
          rw [hsplit, List.cons.injEq] at hprinted
          obtain ⟨rfl, rfl⟩ := hprinted
          have hones : ∀ line ∈ code, OneLine line := fun line hmem =>
            hentered.ones line (List.mem_cons_of_mem _ (List.mem_append_left _ hmem))
          exact finds_leaf (hentered.reads.code hunlike.isList hparts hsame hones hopen
            hentered.located fuel) (length_tail_lt _ tail _)
  | rule marker =>
      have hrule : settledRule extensions marker = true := h
      rw [lines_rule hrule, List.cons.injEq] at hprinted
      obtain ⟨rfl, rfl⟩ := hprinted
      exact finds_leaf (hentered.reads.rule hunlike.isList hrule
        (hentered.ones _ List.mem_cons_self).2 hentered.located fuel) (length_tail_lt _ tail [])
  | html text => cases h
  | frontMatter text => cases h
  | source text => cases h

theorem Reads.length (h : Reads extensions source levels draft more reader) :
    draft.frames.length = depth levels := by
  obtain ⟨containers, hfits, hsame⟩ := h.stands
  rw [← h.draft, Draft.length_closeTo, BlockReader.length_draft, ← length_containers, hsame,
    List.length_append, hfits.length]
  omega

/-- Behind the last line of a quote it is still open, and closed with the next line. -/
theorem Reads.leave_quote {found : List Outline} (hlength : draft.frames.length = depth levels)
    (h : Reads extensions source (levels ++ [.quote]) ((draft.push (.quote [])).append found) more
      reader) :
    Reads extensions source levels (draft.append [.quote found]) (.quote :: more) reader := by
  obtain ⟨containers, hfits, hsame⟩ := h.stands
  obtain ⟨outer, last, rfl, hfits, hfits'⟩ := hfits.split
  refine ⟨h.ready, ⟨outer, hfits, ?_⟩, ?_⟩
  · cases hfits' with
    | quote hnone =>
        cases hnone with
        | nil => rw [hsame, List.append_assoc, List.singleton_append]
  · have hdeeper : depth (levels ++ [.quote]) = depth levels + 1 := by rw [depth_append]; rfl
    have hclosed := h.draft
    rw [hdeeper] at hclosed
    rw [← Draft.closeTo_closeTo (Nat.le_succ (depth levels)), hclosed, Draft.closeTo_of_succ]
    · exact Draft.close_push_append _ _ _
    · rw [Draft.length_append, Draft.push, List.length_cons, hlength]

theorem Entered.exists_fuel {taken fuel : Nat} {first tail : Text} {later : List Text}
    (h : Entered extensions source levels draft more reader taken first later tail fuel) :
    ∃ less, fuel = less + 1 :=
  Nat.exists_eq_add_one_of_ne_zero (Nat.ne_zero_of_lt h.enough)

theorem Entered.atLeaf {taken fuel : Nat} {first tail : Text} {later : List Text}
    (h : Entered extensions source levels draft more reader taken first later tail fuel)
    (hlist : IsList more) :
    AtLeaf extensions source levels draft (reader.finishList reader.position) :=
  h.reads.atLeaf hlist reader.position

theorem reads_of_opened {level : Level} {opened : Draft} (hready : Ready extensions source reader)
    (hstands : StandsIn (levels ++ [level]) [] reader) (hfound : reader.draft source = opened) :
    Reads extensions source (levels ++ [level]) opened [] reader := by
  refine ⟨hready, hstands, ?_⟩
  obtain ⟨containers, hfits, hsame⟩ := hstands
  rw [← hfound]
  apply Draft.closeTo_of_le
  rw [BlockReader.length_draft, ← length_containers, hsame, List.append_nil, hfits.length]

theorem StopsAfter.inside {level : Level} {opened : Option (List Level)} {tail : Text}
    (h : StopsAfter extensions levels (opened.map (level :: ·)) tail) :
    StopsAfter extensions (levels ++ [level]) opened tail := by
  intro inner hsame containers hfits
  rw [List.append_assoc, List.singleton_append] at hfits
  exact h (level :: inner) (by rw [hsame, Option.map_some]) containers hfits

theorem OneLine.append {first second : Text} (h : OneLine (first ++ second)) : OneLine second :=
  ⟨fun hmem => h.1 (List.mem_append_right _ hmem), fun hmem => h.2 (List.mem_append_right _ hmem)⟩

theorem readsBack_quote {nesting : Nat} {children : List Block}
    (h : AllReadBack extensions source (quoteSpacing children) children) :
    ReadsBack extensions source (.quote nesting children) := by
  intro levels draft more reader taken first later tail fuel hentered hunlike hprinted hstops
  rw [lines] at hprinted
  obtain ⟨line, inner, hcontent, rfl, rfl⟩ := List.map_eq_cons_iff.mp hprinted
  have hlength := hentered.reads.length
  have hatLeaf := hentered.atLeaf hunlike.isList
  have hstays := BlockReader.stays_finishList reader.position reader
  obtain ⟨fuel, rfl⟩ := hentered.exists_fuel
  obtain ⟨hstands, hfound⟩ := pushQuote_spec source hatLeaf.stands
    (reader.position + taken)
  rw [hatLeaf.draft] at hfound
  have hready : Ready extensions source ((reader.finishList reader.position).push .quote
      (reader.position + taken)) :=
    ⟨hatLeaf.ready.extensions, hatLeaf.ready.rest, hatLeaf.ready.emptyItem, hatLeaf.ready.task⟩
  have hmarked : below levels (inner.map Level.quote.mark) = below (levels ++ [.quote]) inner :=
    below_map levels .quote inner
  have hmark (line : Text) : Level.quote.mark line = ['>', ' '] ++ line := rfl
  have hlocated := hentered.located
  have hinside : Entered extensions source (levels ++ [.quote]) (draft.push (.quote [])) []
      ((reader.finishList reader.position).push .quote (reader.position + taken)) (taken + 2)
      line inner tail fuel := by
    refine ⟨reads_of_opened hready hstands hfound, ?_, ?_, ?_⟩
    · have htext := congrArg (List.drop 2) hlocated
      rw [List.drop_drop, hmarked] at htext
      have hposition : ((reader.finishList reader.position).push .quote
          (reader.position + taken)).position = reader.position := hstays.position
      rw [hposition, ← Nat.add_assoc]
      exact htext
    · intro other hmem
      have hone := hentered.ones _ (List.mem_map_of_mem (l := line :: inner) hmem)
      rw [hmark] at hone
      exact hone.append
    · have henough := hentered.enough
      rw [hmark, List.length_append] at henough
      simp only [List.length_cons, List.length_nil] at henough
      omega
  have hresult := h hinside (.inl rfl) hcontent hstops.inside
  obtain ⟨hless, last, more', inner', hsteps, hreads, hfits, hrest, -⟩ := hresult
  rw [place_append_quote] at hreads
  have hentry : enter (fuel + 1) (headAt taken (Level.quote.mark line ++ '\n' ::
        (below levels (inner.map Level.quote.mark) ++ tail))) reader
      = enter fuel (headAt (taken + 2) (line ++ '\n' :: (below (levels ++ [.quote]) inner ++ tail)))
          ((reader.finishList reader.position).push .quote (reader.position + taken)) := by
    rw [hmarked]
    exact enter_quote fuel taken _ reader
  refine ⟨?_, last, .quote :: more', .quote :: inner', ?_, ?_, .quote hfits, hrest, ?_⟩
  · rw [hentry, hmarked, hmark]
    simp only [List.length_append, List.length_cons] at hless ⊢
    omega
  · rw [hentry]
    exact hsteps
  · exact hreads.leave_quote hlength
  · exact ⟨fun _ => rfl, fun _ _ _ hnone => by cases hnone⟩

/-! ## Blocks one after the other -/

theorem keptOpen_cases (containers : List Container) :
    keptOpen containers = [] ∨
      ∃ tight marker number, keptOpen containers = [.list tight marker number] := by
  unfold keptOpen
  split
  · exact .inr ⟨_, _, _, rfl⟩
  · exact .inl rfl

theorem length_hung_le (width : Nat) (line : Text) : line.length ≤ (hung width line).length := by
  obtain ⟨front, hsame⟩ := exists_front_hung width line
  rw [hsame, List.length_append]
  omega

theorem length_le_carry (levels : List Level) (line : Text) :
    line.length ≤ (carry levels line).length := by
  induction levels with
  | nil => exact Nat.le_refl _
  | cons level levels ih =>
      cases level with
      | quote =>
          rw [carry_cons, Level.mark, List.length_cons, List.length_cons]
          omega
      | item marker width => exact ih.trans (length_hung_le width _)

structure Apart (extensions : Extensions) (gap : Nat) (block next : Block) : Prop where
  list : ∀ marker, listMarker? block = some marker → listMarker? next ≠ some marker
  quote : gap = 0 → isQuote block = true → isQuote next = false
  text : gap = 0 → (openLevels block).isSome = true → interruptsText next = true ∧
    ∀ line later, lines next = line :: later → extensions.tables = true →
      Table.separator? (line ++ ['\n']) = none

theorem apart_iff {gap : Nat} {block next : Block}
    (h : apart extensions gap block next = true) : Apart extensions gap block next := by
  simp only [apart, Bool.and_eq_true, Bool.or_eq_true, decide_eq_true_eq, Bool.not_eq_true',
    Bool.and_eq_false_iff, Option.isNone_iff_eq_none] at h
  obtain ⟨hlist, hgap⟩ := h
  refine ⟨?_, ?_, ?_⟩
  · intro marker hsame hnext
    rcases hlist with hnone | hdiffers
    · rw [hsame] at hnone
      cases hnone
    · exact hdiffers (hsame.trans hnext.symm)
  · intro hzero hquote
    rcases hgap with hpos | ⟨hquotes | hquotes, -⟩
    · omega
    · rw [hquote] at hquotes
      cases hquotes
    · exact hquotes
  · intro hzero hopened
    rcases hgap with hpos | ⟨-, hnone | ⟨hstarts, hseparator⟩⟩
    · omega
    · rw [hnone] at hopened
      cases hopened
    · refine ⟨hstarts, fun line later hprinted htables => ?_⟩
      rcases hseparator with hdisabled | hnone
      · rw [htables] at hdisabled
        cases hdisabled
      · simpa [hprinted] using hnone

theorem head?_itemLevels {kind : ListKind} {spacing : Spacing} {index : Nat}
    {items : List (List Block)} {inner : List Level}
    (h : itemLevels kind spacing index items = some inner) : inner.head? ≠ some .quote := by
  induction items generalizing index with
  | nil => cases h
  | cons item rest ih =>
      rw [itemLevels] at h
      split at h
      · obtain ⟨levels, -, rfl⟩ := Option.map_eq_some_iff.mp h
        simp [itemLevel]
      · exact ih h

theorem isQuote_of_openLevels {block : Block} {inner : List Level}
    (h : openLevels block = some inner) (hquote : inner.head? = some .quote) :
    isQuote block = true := by
  cases block with
  | paragraph content =>
      cases h
      cases hquote
  | heading level content => cases h
  | quote nesting children => rfl
  | list kind tight items => exact absurd hquote (head?_itemLevels h)
  | verbatim content => cases h

theorem exists_lines {block : Block} (h : settled extensions block = true) :
    ∃ first later, lines block = first :: later := by
  have hprints : Text.splitLines (Printer.block block) = lines block := prints_block block h
  exact List.exists_cons_of_ne_nil (hprints ▸ Text.splitLines_ne_nil _)

theorem allSettled_cons {spacing : Spacing} {block : Block} {rest : List Block}
    (h : allSettled extensions spacing (block :: rest) = true) :
    settled extensions block = true ∧
      (∀ next ∈ rest.head?, settled extensions next = true ∧
        Apart extensions (spacing.gap (isHeading block) rest.isEmpty) block next) ∧
      allSettled extensions spacing rest = true := by
  rw [allSettled, Bool.and_eq_true, Bool.and_eq_true, Option.all_eq_true] at h
  obtain ⟨⟨hsettled, hapart⟩, hrestSettled⟩ := h
  refine ⟨hsettled, fun next hmem => ⟨?_, apart_iff (hapart next hmem)⟩, hrestSettled⟩
  obtain ⟨tail, rfl⟩ := List.head?_eq_some_iff.mp (Option.mem_def.mp hmem)
  rw [allSettled, Bool.and_eq_true, Bool.and_eq_true] at hrestSettled
  exact hrestSettled.1.1

theorem stopsAfter_next {spacing : Spacing} {block : Block} {rest : List Block}
    (hapart : ∀ next ∈ rest.head?, settled extensions next = true ∧
      Apart extensions (spacing.gap (isHeading block) rest.isEmpty) block next)
    (hones : ∀ line ∈ allLines spacing rest, OneLine line) {tail : Text}
    (hstops : StopsAfter extensions levels (lastLevels spacing (block :: rest)) tail) :
    StopsAfter extensions levels (openLevels block)
      (below levels (List.replicate (spacing.gap (isHeading block) rest.isEmpty) [])
        ++ (below levels (allLines spacing rest) ++ tail)) := by
  intro inner hopened containers hfits
  -- A paragraph goes on into what follows unless a blank line does.
  cases hgap : spacing.gap (isHeading block) rest.isEmpty with
  | succ n =>
      rw [List.replicate_succ, below_cons, List.append_assoc, List.cons_append]
      exact stops_blank hfits _
  | zero =>
      rw [List.replicate_zero, below_nil, List.nil_append]
      cases rest with
      | nil =>
          rw [allLines, below_nil, List.nil_append]
          refine hstops inner ?_ containers hfits
          rw [lastLevels, List.isEmpty_nil, if_pos rfl]
          exact (if_pos hgap).trans hopened
      | cons next rest =>
          obtain ⟨hsettled, hapart⟩ := hapart next rfl
          obtain ⟨line, later, hprinted⟩ := exists_lines hsettled
          obtain ⟨hstarts, hseparator⟩ := hapart.text hgap (by rw [hopened]; rfl)
          have hfront := firstLine hsettled hprinted
          have hone : OneLine line := by
            apply hones
            rw [allLines, hprinted]
            exact List.mem_cons_self
          have hbreaks := hfront.breaks hone hstarts (hseparator line later hprinted)
          rw [allLines, hprinted, List.cons_append, List.cons_append, below_cons, List.append_assoc,
            List.cons_append]
          refine hbreaks.stops hfits (fun hquote hmark => ?_) _
          have hsingle := hapart.quote hgap (isQuote_of_openLevels hopened hquote)
          rw [hfront.isQuote hmark] at hsingle
          cases hsingle

theorem AllReadBack.arrive {spacing : Spacing} {blocks : List Block}
    (h : AllReadBack extensions source spacing blocks)
    (hreads : Reads extensions source levels draft more reader) {inner : List Level}
    (hfits : Fits inner more) {line tail : Text} {later : List Text}
    (hprinted : allLines spacing blocks = line :: later) (hvisible : Visible line)
    (hplain : more.head? = some .quote → line.head? ≠ some '>')
    (hones : ∀ other ∈ line :: later, OneLine other)
    (hunlike : Unlike (keptOpen more) (blocks.head?.bind listMarker?))
    (hstops : StopsAfter extensions levels (lastLevels spacing blocks) tail)
    (hrest : reader.rest = below levels (line :: later) ++ tail) :
    ∃ last more' inner', Steps reader last ∧
      Reads extensions source levels (draft.append (Block.outlines (place levels) blocks)) more'
        last ∧ Fits inner' more' ∧ last.rest = tail := by
  rw [below_cons, List.append_assoc, List.cons_append] at hrest
  obtain ⟨taken, next, hstep, hentered, hlocated, hlength, -⟩ :=
    hreads.arrive hfits hvisible hplain hrest
  obtain ⟨hless, last, more', inner', hsteps, hfound, hfits', hdone, -⟩ :=
    h ⟨hentered, hlocated, hones, Nat.lt_succ_of_le hlength⟩ hunlike hprinted hstops
  refine ⟨last, more', inner', .step ?_ (hstep ▸ hsteps), hfound, hfits', hdone⟩
  have hlonger : (line ++ '\n' :: (below levels later ++ tail)).length ≤ reader.rest.length := by
    have hcarried := length_le_carry levels line
    rw [hrest, List.length_append, List.length_append]
    omega
  rw [hstep]
  exact Nat.lt_of_lt_of_le hless hlonger

theorem allReadBack_nil (spacing : Spacing) : AllReadBack extensions source spacing [] := by
  intro levels draft more reader taken first later tail fuel hentered hunlike hprinted
  cases hprinted

/-- What a block leaves open does not go on with a neighbour that is told apart from it. -/
theorem Left.unlike {block next : Block} {gap : Nat} (h : Left block more)
    (hapart : Apart extensions gap block next) : Unlike (keptOpen more) (listMarker? next) := by
  rcases keptOpen_cases more with hnone | ⟨tight, marker, number, hkept⟩
  · exact .inl hnone
  · exact .inr ⟨tight, marker, number, hkept, hapart.list marker (h.list tight marker number hkept)⟩

theorem allReadBack_cons {spacing : Spacing} {block : Block} {rest : List Block}
    (hfirst : ReadsBack extensions source block)
    (hrest : AllReadBack extensions source spacing rest)
    (h : allSettled extensions spacing (block :: rest) = true) :
    AllReadBack extensions source spacing (block :: rest) := by
  intro levels draft more reader taken first later tail fuel hentered hunlike hprinted hstops
  obtain ⟨hsettled, hapart, hrestSettled⟩ := allSettled_cons h
  obtain ⟨line, behind, hshape⟩ := exists_lines hsettled
  rw [allLines, hshape, List.append_assoc, List.cons_append, List.cons.injEq] at hprinted
  obtain ⟨rfl, rfl⟩ := hprinted
  have hsplit : below levels (behind
        ++ (List.replicate (spacing.gap (isHeading block) rest.isEmpty) []
          ++ allLines spacing rest)) ++ tail
      = below levels behind ++ (below levels
          (List.replicate (spacing.gap (isHeading block) rest.isEmpty) [])
            ++ (below levels (allLines spacing rest) ++ tail)) := by
    rw [below_append, below_append, List.append_assoc, List.append_assoc]
  have hones : ∀ other ∈ allLines spacing rest, OneLine other := fun other hmem =>
    hentered.ones other
      (List.mem_cons_of_mem _ (List.mem_append_right _ (List.mem_append_right _ hmem)))
  have hfront : Entered extensions source levels draft more reader taken line behind
      (below levels (List.replicate (spacing.gap (isHeading block) rest.isEmpty) [])
        ++ (below levels (allLines spacing rest) ++ tail)) fuel :=
    ⟨hentered.reads, hsplit ▸ hentered.located, fun other hmem => hentered.ones other
      (List.mem_append_left _ hmem), hentered.enough⟩
  -- First the block, then the gap behind it, which closes quotes and keeps a list open.
  obtain ⟨hless, last, more₁, inner₁, hsteps₁, hreads₁, hfits₁, hrest₁, hleft⟩ :=
    hfirst hfront hunlike hshape (stopsAfter_next hapart hones hstops)
  obtain ⟨last₂, more₂, hsteps₂, hreads₂, ⟨inner₂, hfits₂⟩, hrest₂, hkept, hquote, -⟩ :=
    hreads₁.blankLines hfits₁ hrest₁
  rw [hsplit]
  refine ⟨hless, ?_⟩
  rw [Block.outlines, ← Draft.append_append]
  cases rest with
  | nil =>
      refine ⟨last₂, more₂, inner₂, hsteps₁.trans hsteps₂, ?_, hfits₂, hrest₂, trivial⟩
      rw [Block.outlines, Draft.append_append, List.append_nil]
      exact hreads₂
  | cons next rest =>
      obtain ⟨hnextSettled, hapart⟩ := hapart next rfl
      obtain ⟨start, others, hsame⟩ := exists_lines hnextSettled
      have hnextFirst := firstLine hnextSettled hsame
      have hall : allLines spacing (next :: rest) = start :: (others ++ List.replicate
          (spacing.gap (isHeading next) rest.isEmpty) [] ++ allLines spacing rest) := by
        rw [allLines, hsame]
        rfl
      have hplain : more₂.head? = some .quote → start.head? ≠ some '>' := by
        intro hopen hmark
        obtain ⟨hgap, hopen⟩ := hquote hopen
        have hsingle := hapart.quote hgap (hleft.quote hopen)
        rw [hnextFirst.isQuote hmark] at hsingle
        cases hsingle
      have hunlike₂ : Unlike (keptOpen more₂) ((next :: rest).head?.bind listMarker?) :=
        hkept ▸ hleft.unlike hapart
      obtain ⟨last₃, more₃, inner₃, hsteps₃, hreads₃, hfits₃, hrest₃⟩ :=
        hrest.arrive hreads₂ hfits₂ hall hnextFirst.visible hplain (hall ▸ hones) hunlike₂ hstops
          (hall ▸ hrest₂)
      have hsteps := hsteps₁.trans (hsteps₂.trans hsteps₃)
      exact ⟨last₃, more₃, inner₃, hsteps, hreads₃, hfits₃, hrest₃, trivial⟩

end Canonmark.Printed
