import Canonmark.Proofs.Document.Built
import Canonmark.Proofs.Source.DefinitionTable

/-!
# Definitions in documents

A definition has no events. The builder makes a block of each, in the order of the source and
without the markers of the containers around it: before the first block that starts behind the
definition, or where the container ends. Each definition of the table becomes one block.
-/

namespace Canonmark

open Source (Event Located InlineShape Shape)

variable {origin : Origin}

def Block.isLeaf : Block → Bool
  | .quote _ _ => false
  | .list _ _ _ => false
  | _ => true

namespace Document

def definition (origin : Origin) (enclosures : List Enclosure) (span : Span) : Block :=
  .verbatim (.source (Text.dropEndWhile Unicode.isWhitespace
    (Enclosure.stripLines enclosures (origin.slice span))))

mutual

/--
Blocks that are made of events in containers, the innermost of which ends at `limit`, and of the
definitions `due` between them. The definitions `later` stand behind.

A definition comes before the first block that starts behind it. No block comes before a
definition that starts in front of it, and no container's end before one in the container.
-/
inductive Placed (origin : Origin) :
    List Enclosure → (limit : Option Nat) → List Located → (due later : List Span) →
      List Block → Prop where
  | nil (enclosures : List Enclosure) (limit : Option Nat) (later : List Span) :
      Placed origin enclosures limit [] [] later []
  | definition (span : Span) {enclosures : List Enclosure} {limit : Option Nat}
      {events : List Located} {due later : List Span} {blocks : List Block} :
      (∀ position ∈ (events.head?.map (·.2.start)).or limit, span.start < position) →
        Placed origin enclosures limit events due later blocks →
          Placed origin enclosures limit events (span :: due) later
            (definition origin enclosures span :: blocks)
  | leaf (event : Event) (span : Span) (front : List Located) (block : Block)
      {enclosures : List Enclosure} {limit : Option Nat} {events : List Located}
      {due later : List Span} {blocks : List Block} : block.isLeaf = true →
        (∀ definition ∈ due ++ later, span.start ≤ definition.start) →
          Placed origin enclosures limit events due later blocks →
            Placed origin enclosures limit ((event, span) :: front ++ events) due later
              (block :: blocks)
  | quote (span stop : Span) (depth : Nat) {enclosures : List Enclosure} {limit : Option Nat}
      {children events : List Located} {inner due later : List Span}
      {inside blocks : List Block} :
      (∀ definition ∈ inner, span.start ≤ definition.start) →
        (∀ definition ∈ due ++ later, stop.stop ≤ definition.start) →
          Placed origin (enclosures ++ [.quote]) (some stop.stop) children inner (due ++ later)
              inside →
            Placed origin enclosures limit events due later blocks →
              Placed origin enclosures limit
                ((.enter .quote, span) :: children ++ (.leave, stop) :: events) (inner ++ due)
                later (.quote depth inside :: blocks)
  | list (number : Option Nat) (span stop : Span) (kind : ListKind) (tight : Bool)
      {enclosures : List Enclosure} {limit : Option Nat} {children events : List Located}
      {inner due later : List Span} {items : List (List Block)} {blocks : List Block} :
      (∀ definition ∈ inner, span.start ≤ definition.start) →
        ItemsPlaced origin enclosures children inner (due ++ later) items →
          Placed origin enclosures limit events due later blocks →
            Placed origin enclosures limit
              ((.enter (.list number), span) :: children ++ (.leave, stop) :: events)
              (inner ++ due) later (.list kind tight items :: blocks)

inductive ItemsPlaced (origin : Origin) :
    List Enclosure → List Located → (due later : List Span) → List (List Block) → Prop where
  | nil (enclosures : List Enclosure) (later : List Span) :
      ItemsPlaced origin enclosures [] [] later []
  | item (span stop : Span) (indent : Nat) {enclosures : List Enclosure}
      {children events : List Located} {inner due later : List Span} {inside : List Block}
      {items : List (List Block)} :
      (∀ definition ∈ due ++ later, stop.stop ≤ definition.start) →
        Placed origin (enclosures ++ [.item indent]) (some stop.stop) children inner
            (due ++ later) inside →
          ItemsPlaced origin enclosures events due later items →
            ItemsPlaced origin enclosures
              ((.enter .item, span) :: children ++ (.leave, stop) :: events)
              (inner ++ due) later (inside :: items)

end

namespace Placed

variable {enclosures : List Enclosure}

theorem front {limit : Option Nat} {events : List Located} {due later : List Span}
    {blocks : List Block} (definitions : List Span)
    (hbefore : ∀ definition ∈ definitions,
      ∀ position ∈ (events.head?.map (·.2.start)).or limit, definition.start < position)
    (h : Placed origin enclosures limit events due later blocks) :
    Placed origin enclosures limit events (definitions ++ due) later
      (definitions.map (Document.definition origin enclosures) ++ blocks) := by
  induction definitions with
  | nil => exact h
  | cons definition definitions ih =>
      exact .definition definition (hbefore definition List.mem_cons_self)
        (ih fun later hlater => hbefore later (List.mem_cons_of_mem _ hlater))

theorem behind {events : List Located} {due all definitions later : List Span}
    {blocks : List Block} (h : Placed origin enclosures none events due all blocks)
    (hall : all = definitions ++ later) :
    Placed origin enclosures none events (due ++ definitions) later
      (blocks ++ definitions.map (Document.definition origin enclosures)) := by
  match h with
  | .nil _ _ _ =>
      have hnil : Placed origin enclosures none [] [] later [] := .nil _ _ _
      simpa using hnil.front definitions (by simp)
  | .definition span hbefore hrest => exact .definition span hbefore (hrest.behind hall)
  | .leaf event span front block hleaf hstart hrest =>
      subst hall
      exact .leaf event span front block hleaf (by simpa using hstart) (hrest.behind rfl)
  | .quote span stop depth hinner hstop hinside hrest =>
      subst hall
      rw [List.append_assoc]
      rw [← List.append_assoc] at hstop hinside
      exact .quote span stop depth hinner hstop hinside (hrest.behind rfl)
  | .list number span stop kind tight hinner hitems hrest =>
      subst hall
      rw [List.append_assoc]
      rw [← List.append_assoc] at hitems
      exact .list number span stop kind tight hinner hitems (hrest.behind rfl)

end Placed

end Document

namespace Builder

open Document (Placed ItemsPlaced)

/-! ## Inline content moves on -/

/-- Events are taken from the front; containers and definitions stay. -/
structure Moves (builder after : Builder) : Prop where
  events : after.events <:+ builder.events
  enclosures : after.enclosures = builder.enclosures
  definitions : after.definitions = builder.definitions

namespace Moves

theorem refl (builder : Builder) : Moves builder builder := ⟨List.suffix_refl _, rfl, rfl⟩

theorem trans {first second third : Builder} (h : Moves first second) (h' : Moves second third) :
    Moves first third :=
  ⟨h'.events.trans h.events, h'.enclosures.trans h.enclosures,
    h'.definitions.trans h.definitions⟩

end Moves

theorem suffix_skipFrom (depth : Nat) (events : List Located) :
    skipFrom depth events <:+ events := by
  fun_induction skipFrom depth events with
  | case1 => exact List.suffix_refl _
  | case3 span rest => exact List.suffix_cons _ _
  | case2 _ _ _ _ ih => exact ih.trans (List.suffix_cons _ _)
  | case4 _ _ _ ih => exact ih.trans (List.suffix_cons _ _)
  | case5 _ _ _ _ _ _ ih => exact ih.trans (List.suffix_cons _ _)

theorem moves_skip (builder : Builder) : Moves builder builder.skip :=
  ⟨suffix_skipFrom 0 _, rfl, rfl⟩

theorem suffix_literalFrom (events : List Located) : (literalFrom events).2 <:+ events := by
  fun_induction literalFrom events with
  | case1 => exact List.suffix_refl _
  | case2 => exact List.suffix_cons _ _
  | case3 _ _ _ ih => exact ih.trans (List.suffix_cons _ _)
  | case4 _ _ _ ih => exact ih.trans (List.suffix_cons _ _)
  | case5 _ _ _ ih => exact ih.trans (List.suffix_cons _ _)
  | case6 _ _ _ ih => exact ih.trans (List.suffix_cons _ _)
  | case7 _ _ _ _ _ _ _ ih => exact ih.trans (List.suffix_cons _ _)

theorem moves_literal (builder : Builder) : Moves builder builder.literal.2 :=
  ⟨suffix_literalFrom _, rfl, rfl⟩

theorem moves_pushText (span : Span) (content : List Inline) (builder : Builder) :
    Moves builder (pushText origin span content builder).2 := by
  unfold pushText
  simp only
  split <;> exact ⟨List.suffix_refl _, rfl, rfl⟩

theorem moves_next {event : Event} {span : Span} {rest : List Located} {builder : Builder}
    (h : builder.events = (event, span) :: rest) : Moves builder { builder with events := rest } :=
  ⟨h ▸ List.suffix_cons _ _, rfl, rfl⟩

mutual

theorem moves_inline (fuel : Nat) (event : Event) (span : Span) (content : List Inline)
    (builder : Builder) : Moves builder (inline origin fuel event span content builder).2 := by
  have hends (after : Builder) (h : Moves builder after) :
      Moves builder { after with inlineEnd := span.stop } := ⟨h.events, h.enclosures, h.definitions⟩
  cases fuel with
  | zero => exact .refl builder
  | succ fuel =>
      have hchildren := moves_inlines fuel [] builder
      cases event with
      | text text => exact moves_pushText span content builder
      | leave => exact .refl builder
      | enter tag =>
          cases tag with
          | emphasis => exact hends _ hchildren
          | strong => exact hends _ hchildren
          | strike => exact hends _ hchildren
          | link image form destination title =>
              cases form with
              | direct => exact hends _ hchildren
              | _ => cases image <;> exact hends _ (moves_skip builder)
          | _ => exact hends _ (moves_skip builder)
      | _ => exact hends _ (.refl builder)

theorem moves_inlines (fuel : Nat) (content : List Inline) (builder : Builder) :
    Moves builder (inlines origin fuel content builder).2 := by
  cases fuel with
  | zero => exact .refl builder
  | succ fuel =>
      rw [inlines]
      split
      · exact .refl builder
      · next h => exact moves_next h
      · next event span rest _ h =>
          exact (moves_next h).trans ((moves_inline fuel event span content _).trans
            (moves_inlines fuel _ _))

end

theorem moves_looseInlines (fuel : Nat) (content : List Inline) (builder : Builder) :
    Moves builder (looseInlines origin fuel content builder).2 := by
  induction fuel generalizing content builder with
  | zero => exact .refl builder
  | succ fuel ih =>
      rw [looseInlines]
      split
      · exact .refl builder
      · next event span rest h =>
          split
          · exact (moves_next h).trans ((moves_inline fuel event span content _).trans (ih _ _))
          · exact .refl builder

def Ascending (builder : Builder) : Prop := builder.definitions.Pairwise (·.start ≤ ·.start)

theorem exists_takeWhile_before (position : Nat) {spans : List Span}
    (h : spans.Pairwise (·.start ≤ ·.start)) :
    ∃ due later, spans = due ++ later ∧ spans.takeWhile (·.start < position) = due ∧
      (∀ span ∈ due, span.start < position) ∧ ∀ span ∈ later, position ≤ span.start := by
  induction spans with
  | nil => exact ⟨[], [], rfl, rfl, by simp, by simp⟩
  | cons first spans ih =>
      obtain ⟨hfirst, hspans⟩ := List.pairwise_cons.mp h
      by_cases hbefore : first.start < position
      · obtain ⟨due, later, hsplit, hdue, hstart, hlater⟩ := ih hspans
        refine ⟨first :: due, later, congrArg (first :: ·) hsplit, ?_, ?_, hlater⟩
        · simp [hbefore, hdue]
        · exact List.forall_mem_cons.mpr ⟨hbefore, hstart⟩
      · refine ⟨[], first :: spans, rfl, by simp [hbefore], by simp, ?_⟩
        refine List.forall_mem_cons.mpr ⟨Nat.le_of_not_lt hbefore, fun span hspan => ?_⟩
        exact Nat.le_trans (Nat.le_of_not_lt hbefore) (hfirst span hspan)

theorem exists_flush (position : Nat) {builder : Builder} (h : builder.Ascending) :
    ∃ due flushed, flush origin position builder =
        (due.map (Document.definition origin builder.enclosures), flushed) ∧
      builder.definitions = due ++ flushed.definitions ∧ flushed.events = builder.events ∧
      flushed.enclosures = builder.enclosures ∧
      (∀ definition ∈ due, definition.start < position) ∧
        ∀ definition ∈ flushed.definitions, position ≤ definition.start := by
  obtain ⟨due, later, hsplit, hdue, hbefore, hlater⟩ := exists_takeWhile_before position h
  refine ⟨due, { builder with definitions := later }, ?_, hsplit, rfl, rfl, hbefore, hlater⟩
  rw [flush, hdue, hsplit, List.drop_left]
  rfl

/-! ## Blocks stand between the definitions -/

/-- The blocks of events, with the definitions between them; where they end, `after` goes on. -/
def BlocksPlaced (origin : Origin) (builder : Builder) (events after : List Located)
    (built : List Block × Builder) : Prop :=
  ∃ due, builder.definitions = due ++ built.2.definitions ∧
    built.2.enclosures = builder.enclosures ∧
    Placed origin builder.enclosures (after.head?.map (·.2.stop)) events due
      built.2.definitions built.1 ∧
    ∀ located ∈ after.head?, ∀ definition ∈ built.2.definitions,
      located.2.stop ≤ definition.start

/-- The block of the front of events: the others may be placed behind it. -/
def BlockPlaced (origin : Origin) (builder : Builder) (events rest : List Located)
    (made : Option Block × Builder) : Prop :=
  ∃ inner, builder.definitions = inner ++ made.2.definitions ∧
    made.2.enclosures = builder.enclosures ∧
    ∀ {limit : Option Nat} {due later : List Span} {blocks : List Block},
      made.2.definitions = due ++ later →
        Placed origin builder.enclosures limit rest due later blocks →
          Placed origin builder.enclosures limit events (inner ++ due) later
            (made.1.toList ++ blocks)

theorem Ascending.behind {builder after : Builder} {due : List Span} (h : builder.Ascending)
    (hdefinitions : builder.definitions = due ++ after.definitions) : after.Ascending := by
  rw [Ascending, hdefinitions] at h
  exact (List.pairwise_append.mp h).2.1

theorem BlocksPlaced.ascending {builder : Builder} {events after : List Located}
    {built : List Block × Builder} (h : BlocksPlaced origin builder events after built)
    (hascending : builder.Ascending) : built.2.Ascending := by
  obtain ⟨due, hdue, -⟩ := h
  exact hascending.behind hdue

/-- A block of the front of events, with the blocks of the others behind it. -/
def BlockFollowed (origin : Origin) (fuel : Nat) (builder : Builder)
    (events after : List Located) (made : Option Block × Builder) : Prop :=
  ∃ rest, BlockPlaced origin builder events rest made ∧
    (made.2.Ascending → BlocksPlaced origin made.2 rest after (made.2.blocks origin fuel))

theorem BlockFollowed.blocks {fuel : Nat} {event : Event} {span : Span}
    {events after : List Located} {builder : Builder} (hleave : event ≠ .leave)
    (h : builder.Ascending) (hevents : builder.events = (event, span) :: (events ++ after))
    (hfirst : ∀ entered : Builder, entered.events = events ++ after → entered.Ascending →
      (∀ definition ∈ entered.definitions, span.start ≤ definition.start) →
        BlockFollowed origin fuel entered ((event, span) :: events) after
          (block origin fuel event span entered)) :
    BlocksPlaced origin builder ((event, span) :: events) after
      (builder.blocks origin (fuel + 1)) := by
  obtain ⟨front, entered, hflush, hsplit, hentered, houter, hbefore, hlater⟩ :=
    @exists_flush origin span.start { builder with events := events ++ after } h
  rw [blocks_event hleave builder hevents, hflush]
  have hascending : entered.Ascending := h.behind hsplit
  obtain ⟨rest, ⟨inner, hinner, hwithin, hplaced⟩, hothers⟩ :=
    hfirst entered hentered hascending hlater
  obtain ⟨due, hdue, houtside, hblocks, hstop⟩ := hothers (hascending.behind hinner)
  refine ⟨front ++ (inner ++ due), ?_, houtside.trans (hwithin.trans houter), ?_, hstop⟩
  · calc builder.definitions = front ++ (inner ++ (due ++ _)) := by rw [← hdue, ← hinner, hsplit]
      _ = front ++ (inner ++ due) ++ _ := by simp only [List.append_assoc]
  · rw [hwithin] at hblocks
    have hall := hplaced hdue hblocks
    rw [houter] at hall
    simp only [List.append_assoc]
    exact hall.front front (by simpa using hbefore)

theorem exists_leaf {fuel : Nat} {event : Event} (span : Span) (hleave : event ≠ .leave)
    (hquote : event ≠ .enter .quote) (hlist : ∀ number, event ≠ .enter (.list number))
    (builder : Builder) :
    ∃ leaf : Block, leaf.isLeaf = true ∧
      (block origin (fuel + 1) event span builder).1 = some leaf ∧
        Moves builder (block origin (fuel + 1) event span builder).2 := by
  by_cases hinline : isInline event = true
  · rw [block_loose hinline]
    exact ⟨_, rfl, rfl, (moves_inline fuel event span [] builder).trans
      (moves_looseInlines fuel _ _)⟩
  · cases event with
    | leave => exact absurd rfl hleave
    | enter tag =>
        cases tag with
        | quote => exact absurd rfl hquote
        | list number => exact absurd rfl (hlist number)
        | paragraph => exact ⟨_, rfl, rfl, moves_inlines fuel [] builder⟩
        | heading level => exact ⟨_, rfl, rfl, moves_inlines fuel [] builder⟩
        | code info => exact ⟨_, rfl, rfl, moves_literal builder⟩
        | htmlBlock => exact ⟨_, rfl, rfl, moves_literal builder⟩
        | metadata => exact ⟨_, rfl, rfl, moves_literal builder⟩
        | emphasis => exact absurd rfl hinline
        | strong => exact absurd rfl hinline
        | strike => exact absurd rfl hinline
        | link image form destination title => exact absurd rfl hinline
        | _ => exact ⟨_, rfl, rfl, moves_skip builder⟩
    | rule => exact ⟨_, rfl, rfl, .refl builder⟩
    | html html => exact ⟨_, rfl, rfl, .refl builder⟩
    | displayMath => exact ⟨_, rfl, rfl, .refl builder⟩
    | _ => exact absurd rfl hinline

theorem placed_leaf {fuel : Nat} {event : Event} {span : Span} {events rest after : List Located}
    {builder : Builder} (hleave : event ≠ .leave) (hquote : event ≠ .enter .quote)
    (hlist : ∀ number, event ≠ .enter (.list number)) (hevents : builder.events = events ++ after)
    (hstart : ∀ definition ∈ builder.definitions, span.start ≤ definition.start)
    (hrest : (block origin (fuel + 1) event span builder).2.events = rest ++ after) :
    BlockPlaced origin builder ((event, span) :: events) rest
      (block origin (fuel + 1) event span builder) := by
  obtain ⟨leaf, hleaf, hmade, hmoves⟩ :=
    @exists_leaf origin fuel event span hleave hquote hlist builder
  obtain ⟨front, hfront⟩ := hmoves.events
  obtain rfl : front ++ rest = events := by
    rw [hrest, hevents, ← List.append_assoc] at hfront
    exact List.append_cancel_right hfront
  refine ⟨[], hmoves.definitions.symm, hmoves.enclosures, fun hdefinitions hplaced => ?_⟩
  rw [hmade]
  rw [← hmoves.definitions, hdefinitions] at hstart
  exact .leaf event span front leaf hleaf hstart hplaced

theorem placed_quote {fuel : Nat} {span stop : Span} {children rest after : List Located}
    {builder : Builder}
    (hstart : ∀ definition ∈ builder.definitions, span.start ≤ definition.start)
    (h : BlocksPlaced origin (builder.enter .quote) children ((.leave, stop) :: after)
      ((builder.enter .quote).blocks origin fuel)) :
    BlockPlaced origin builder ((.enter .quote, span) :: (children ++ (.leave, stop) :: rest)) rest
      (block origin (fuel + 1) (.enter .quote) span builder) := by
  obtain ⟨inner, hinner, hwithin, hplaced, hstop⟩ := h
  refine ⟨inner, hinner, ?_, fun hdefinitions hrest => ?_⟩
  · exact (congrArg List.dropLast hwithin).trans List.dropLast_concat
  · have hdefinitions : ((builder.enter .quote).blocks origin fuel).2.definitions = _ :=
      hdefinitions
    rw [hdefinitions] at hplaced hstop
    refine Placed.quote span stop _ (fun definition hdefinition => hstart definition ?_)
      (hstop _ rfl) hplaced hrest
    have hbuilder : builder.definitions = _ := hinner
    rw [hbuilder]
    exact List.mem_append_left _ hdefinition

def ListPlaced (origin : Origin) (builder : Builder) (events : List Located)
    (built : List (List Block) × Builder) : Prop :=
  ∃ due, builder.definitions = due ++ built.2.definitions ∧
    built.2.enclosures = builder.enclosures ∧
      ItemsPlaced origin builder.enclosures events due built.2.definitions built.1

theorem placed_list {fuel : Nat} {number : Option Nat} {span stop : Span}
    {children rest : List Located} {builder : Builder}
    (hstart : ∀ definition ∈ builder.definitions, span.start ≤ definition.start)
    (h : ListPlaced origin builder children (items origin fuel number none builder).2.2) :
    BlockPlaced origin builder
      ((.enter (.list number), span) :: (children ++ (.leave, stop) :: rest)) rest
      (block origin (fuel + 1) (.enter (.list number)) span builder) := by
  obtain ⟨inner, hinner, hwithin, hplaced⟩ := h
  refine ⟨inner, hinner, hwithin, fun hdefinitions hrest => ?_⟩
  have hdefinitions : (items origin fuel number none builder).2.2.2.definitions = _ := hdefinitions
  rw [hdefinitions] at hplaced
  refine Placed.list number span stop _ _ (fun definition hdefinition => hstart definition ?_)
    hplaced hrest
  rw [hinner]
  exact List.mem_append_left _ hdefinition

/-- Where the definitions stand in what is built of the events of a shape, at a fuel. -/
structure Places (origin : Origin) (fuel : Nat) : Prop where
  blocks {place : Place} {events after : List Located} {found : List Outline}
      (builder : Builder) : Shape origin.source place events found → place ≠ .list →
    Ends after → 2 * events.length + 1 ≤ fuel → builder.events = events ++ after →
      builder.Ascending → BlocksPlaced origin builder events after (builder.blocks origin fuel)
  items {events rest : List Located} {stop : Span} {found : List Outline}
      (number : Option Nat) (kind : Option ListKind) (builder : Builder) :
    Shape origin.source .list events found → 2 * events.length + 1 ≤ fuel →
      builder.events = events ++ (.leave, stop) :: rest → builder.Ascending →
        ListPlaced origin builder events (items origin fuel number kind builder).2.2

theorem placed_end {fuel : Nat} {after : List Located} (builder : Builder) (hends : Ends after)
    (hevents : builder.events = after) (h : builder.Ascending) :
    BlocksPlaced origin builder [] after (builder.blocks origin (fuel + 1)) := by
  rcases hends with rfl | ⟨stop, rest, rfl⟩
  · rw [blocks, hevents]
    exact ⟨[], rfl, rfl, .nil _ _ _, by simp⟩
  · obtain ⟨due, flushed, hflush, hsplit, -, hwithin, hbefore, hlater⟩ :=
      @exists_flush origin stop.stop { builder with events := rest } h
    rw [blocks, hevents]
    simp only [hflush]
    refine ⟨due, hsplit, hwithin, ?_, by simpa using hlater⟩
    have hnil : Placed origin builder.enclosures (some stop.stop) [] [] flushed.definitions [] :=
      .nil _ _ _
    simpa using hnil.front due (by simpa using hbefore)

theorem places_leaf {fuel : Nat} {place : Place} {event : Event} {span : Span}
    {events after : List Located} {first found : List Outline} {bound : Nat} {builder : Builder}
    (ih : Places origin (fuel + 1)) (hplace : place ≠ .list) (hends : Ends after)
    (hbound : 2 * bound + 1 ≤ fuel + 1) (hleave : event ≠ .leave) (hquote : event ≠ .enter .quote)
    (hlist : ∀ number, event ≠ .enter (.list number)) (hevents : builder.events = events ++ after)
    (hstart : ∀ definition ∈ builder.definitions, span.start ≤ definition.start)
    (hmade : Made origin place (block origin (fuel + 1) event span builder) first found bound
      after) :
    BlockFollowed origin (fuel + 1) builder ((event, span) :: events) after
      (block origin (fuel + 1) event span builder) := by
  obtain ⟨-, rest, hshape, hlength, hrest⟩ := hmade
  exact ⟨rest, placed_leaf hleave hquote hlist hevents hstart hrest,
    ih.blocks _ hshape hplace hends (by omega) hrest⟩

theorem places_quote {fuel : Nat} (ih : ∀ smaller < fuel + 2, Places origin smaller)
    {place : Place} {span stop : Span} {children rest after : List Located}
    {inner found : List Outline} {builder : Builder} (hplace : place ≠ .list) (hends : Ends after)
    (hchildren : Shape origin.source .free children inner)
    (hrest : Shape origin.source place rest found)
    (hfuel : 2 * (children ++ (.leave, stop) :: rest).length + 1 ≤ fuel + 1)
    (hevents : builder.events = children ++ (.leave, stop) :: (rest ++ after))
    (hascending : builder.Ascending)
    (hstart : ∀ definition ∈ builder.definitions, span.start ≤ definition.start) :
    BlockFollowed origin (fuel + 1) builder
      ((.enter .quote, span) :: (children ++ (.leave, stop) :: rest)) after
      (block origin (fuel + 1) (.enter .quote) span builder) := by
  simp only [List.length_append, List.length_cons] at hfuel
  have hstops : Ends ((.leave, stop) :: (rest ++ after)) := .inr ⟨stop, _, rfl⟩
  have hinside := (ih fuel (by omega)).blocks (builder.enter .quote) hchildren (by decide) hstops
    (by omega) hevents hascending
  obtain ⟨-, hleft⟩ := (@keeps origin fuel).blocks (builder.enter .quote) hchildren (by decide)
    hstops (by omega) hevents
  exact ⟨rest, placed_quote hstart hinside,
    (ih (fuel + 1) (by omega)).blocks _ hrest hplace hends (by omega) hleft⟩

theorem places_list {fuel : Nat} (ih : ∀ smaller < fuel + 2, Places origin smaller)
    {place : Place} {number : Option Nat} {span stop : Span} {children rest after : List Located}
    {inner found : List Outline} {builder : Builder} (hplace : place ≠ .list) (hends : Ends after)
    (hchildren : Shape origin.source .list children inner)
    (hrest : Shape origin.source place rest found)
    (hfuel : 2 * (children ++ (.leave, stop) :: rest).length + 1 ≤ fuel + 1)
    (hevents : builder.events = children ++ (.leave, stop) :: (rest ++ after))
    (hascending : builder.Ascending)
    (hstart : ∀ definition ∈ builder.definitions, span.start ≤ definition.start) :
    BlockFollowed origin (fuel + 1) builder
      ((.enter (.list number), span) :: (children ++ (.leave, stop) :: rest)) after
      (block origin (fuel + 1) (.enter (.list number)) span builder) := by
  simp only [List.length_append, List.length_cons] at hfuel
  have hinside := (ih fuel (by omega)).items number none builder hchildren (by omega) hevents
    hascending
  obtain ⟨-, -, hleft⟩ := (@keeps origin fuel).items number none builder hchildren (by omega)
    hevents
  exact ⟨rest, placed_list hstart hinside,
    (ih (fuel + 1) (by omega)).blocks _ hrest hplace hends (by omega) hleft⟩

theorem places_blocks {fuel : Nat} (ih : ∀ smaller < fuel + 1, Places origin smaller)
    {place : Place} {events after : List Located} {found : List Outline} (builder : Builder)
    (h : Shape origin.source place events found) (hplace : place ≠ .list) (hends : Ends after)
    (hfuel : 2 * events.length + 1 ≤ fuel + 1) (hevents : builder.events = events ++ after)
    (hascending : builder.Ascending) :
    BlocksPlaced origin builder events after (builder.blocks origin (fuel + 1)) := by
  have hfront := @front origin fuel _ _ _ _ h hplace hends (Nat.le_of_succ_le_succ hfuel)
  cases hfront with
  | nil => exact placed_end builder hends hevents hascending
  | made bound hleave hbound hmade =>
      rename_i event span events first found
      simp only [List.length_cons] at hfuel
      obtain ⟨fuel, rfl⟩ : ∃ n, fuel = n + 1 := ⟨fuel - 1, by omega⟩
      refine BlockFollowed.blocks hleave hascending hevents
        fun entered hentered hascending hstart => ?_
      by_cases hquote : event = .enter .quote
      · subst hquote
        obtain ⟨children, stop, rest, inner, others, rfl, hchildren, hrest⟩ := h.container rfl
        rw [List.append_assoc] at hentered
        exact places_quote ih hplace hends hchildren hrest (by omega) hentered hascending hstart
      by_cases hlist : ∃ number, event = .enter (.list number)
      · obtain ⟨number, rfl⟩ := hlist
        obtain ⟨children, stop, rest, inner, others, rfl, hchildren, hrest⟩ := h.container rfl
        rw [List.append_assoc] at hentered
        exact places_list ih hplace hends hchildren hrest (by omega) hentered hascending hstart
      · exact places_leaf (ih (fuel + 1) (by omega)) hplace hends hbound hleave hquote
          (fun number hnumber => hlist ⟨number, hnumber⟩) hentered hstart (hmade entered hentered)

def startsParagraph : List Located → Bool
  | (.enter .paragraph, _) :: _ => true
  | _ => false

/--
An item is read within its container, and the others behind it. It loosens its list where its
events start with a paragraph.
-/
theorem exists_items {fuel : Nat} {span : Span} {rest : List Located} (number : Option Nat)
    (kind : Option ListKind) (builder : Builder)
    (h : builder.events = (.enter .item, span) :: rest) :
    ∃ indent kind', (items origin (fuel + 1) number kind builder).2 =
      let item := blocks origin fuel (enter (.item indent) { builder with events := rest })
      let others := (items origin fuel number kind' item.2.leave).2
      (!startsParagraph rest && others.1, item.1 :: others.2.1, others.2.2) := by
  refine ⟨(readItemMarker number (origin.source.drop span.start)).2,
    some (kind.getD (readItemMarker number (origin.source.drop span.start)).1), ?_⟩
  rw [items, h]
  rfl

theorem placed_item {indent : Nat} {span stop : Span} {children others after : List Located}
    {builder : Builder} {item : List Block × Builder} {more : List (List Block) × Builder}
    (h : BlocksPlaced origin (builder.enter (.item indent)) children ((.leave, stop) :: after) item)
    (hmore : ListPlaced origin item.2.leave others more) :
    ListPlaced origin builder ((.enter .item, span) :: (children ++ (.leave, stop) :: others))
      (item.1 :: more.1, more.2) := by
  obtain ⟨inner, hinner, hwithin, hplaced, hstop⟩ := h
  obtain ⟨due, hdue, houtside, hothers⟩ := hmore
  have houter : item.2.leave.enclosures = builder.enclosures :=
    (congrArg List.dropLast hwithin).trans List.dropLast_concat
  have hdefinitions : item.2.definitions = due ++ more.2.definitions := hdue
  rw [houter] at houtside hothers
  rw [hdefinitions] at hinner hplaced hstop
  refine ⟨inner ++ due, ?_, houtside, .item span stop indent (hstop _ rfl) hplaced hothers⟩
  rw [List.append_assoc]
  exact hinner

theorem places_items {fuel : Nat} (ih : ∀ smaller < fuel + 1, Places origin smaller)
    {events rest : List Located} {stop : Span} {found : List Outline} (number : Option Nat)
    (kind : Option ListKind) (builder : Builder) (h : Shape origin.source .list events found)
    (hfuel : 2 * events.length + 1 ≤ fuel + 1)
    (hevents : builder.events = events ++ (.leave, stop) :: rest)
    (hascending : builder.Ascending) :
    ListPlaced origin builder events (items origin (fuel + 1) number kind builder).2.2 := by
  cases h with
  | nil =>
      rw [List.nil_append] at hevents
      rw [items, hevents]
      exact ⟨[], rfl, rfl, .nil _ _⟩
  | item span inner hchildren hrest =>
      rename_i children others first found
      simp only [List.length_cons, List.length_append] at hfuel
      simp only [List.cons_append, List.append_assoc] at hevents
      obtain ⟨indent, kind', hitems⟩ :=
        @exists_items origin fuel span _ number kind builder hevents
      have hstops : Ends ((.leave, inner) :: (others ++ (.leave, stop) :: rest)) :=
        .inr ⟨inner, _, rfl⟩
      have hitem := (ih fuel (by omega)).blocks
        (enter (.item indent) { builder with events := _ }) hchildren (by decide) hstops (by omega)
        rfl hascending
      obtain ⟨-, hleft⟩ := (@keeps origin fuel).blocks
        (enter (.item indent) { builder with events := _ }) hchildren (by decide) hstops (by omega)
        rfl
      rw [hitems]
      exact placed_item hitem ((ih fuel (by omega)).items number kind' _ hrest (by omega) hleft
        (hitem.ascending hascending))
  | _ => contradiction

theorem places (fuel : Nat) : Places origin fuel := by
  induction fuel using Nat.strongRecOn with
  | ind fuel ih =>
  cases fuel with
  | zero => exact ⟨fun _ _ _ _ h => absurd h (by omega), fun _ _ _ _ h => absurd h (by omega)⟩
  | succ fuel => exact ⟨places_blocks ih, places_items ih⟩

end Builder

namespace Document

/-- Definitions in their order are blocks of the document, one each. -/
theorem placed_ofEvents {origin : Origin} {events : List Located} {found : List Outline}
    (h : Shape origin.source .free events found) {definitions : List Span}
    (hascending : definitions.Pairwise (·.start ≤ ·.start)) :
    Placed origin [] none events definitions [] (ofEvents origin events definitions) := by
  obtain ⟨due, hdue, hwithin, hplaced, -⟩ := (@Builder.places origin (2 * events.length + 1)).blocks
    { events := events, definitions := definitions } h (by decide) (.inl rfl) (Nat.le_refl _)
    (by simp) hascending
  have hall := hplaced.behind (List.append_nil _).symm
  rw [← hdue] at hall
  rw [ofEvents]
  simp only [Builder.slice, hwithin]
  exact hall

/--
Each definition in the table of a source is one block of its document, in the container it stands
in. A definition of a label that is in the table already is none.
-/
theorem placed_readFrom (extensions : Extensions) (origin : Origin) :
    Placed origin [] none (Source.SourceRead.ofSource extensions origin.source).events
      (Source.SourceRead.ofSource extensions origin.source).definitions []
      (readFrom extensions origin) :=
  placed_ofEvents (Source.SourceRead.shape_ofSource extensions origin.source)
    (Source.BlockReader.reading_readSource extensions origin.source).table.ascending_spans

end Document

end Canonmark
