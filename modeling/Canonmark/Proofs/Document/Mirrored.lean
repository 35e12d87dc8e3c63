import Canonmark.Proofs.Document.EventTree

/-!
# Documents mirror their events

A document has a block for each block of well-nested events, in their order and with the same
nesting, and one block for each definition between them. Each node is left where its events end,
containers are left with their nodes, and the depth of a quote is the number of quotes it stands
in, itself among them.
-/

namespace Canonmark

open Source (Event Located Tag)
open EventTree (flatten inside areWellNested areWellNested_cons)

variable {origin : Origin}

mutual

/-- Whether each quote has its depth, in a block within `depth` quotes. -/
def Block.quotesCounted (depth : Nat) : Block → Bool
  | .quote counted children => counted == depth + 1 && allQuotesCounted (depth + 1) children
  | .list _ _ items => itemQuotesCounted depth items
  | _ => true

def Block.allQuotesCounted (depth : Nat) : List Block → Bool
  | [] => true
  | block :: blocks => quotesCounted depth block && allQuotesCounted depth blocks

def Block.itemQuotesCounted (depth : Nat) : List (List Block) → Bool
  | [] => true
  | item :: items => allQuotesCounted depth item && itemQuotesCounted depth items

end

/-- Nodes and events that are kept as the text of their span. -/
def EventTree.isKept : EventTree → Bool
  | .leaf event _ => event.1 = .displayMath
  | .node tag _ _ _ =>
      match tag with
      | .item | .footnote | .table | .tableHead | .tableRow | .tableCell => true
      | .termList | .term | .termDetails | .superscript | .subscript => true
      | _ => false

namespace Document

mutual

/-- The block of a tree in containers, and the definitions in it. -/
inductive BlockMirrors (origin : Origin) :
    List Enclosure → EventTree → (due : List Span) → Block → Prop where
  | paragraph (enclosures : List Enclosure) (span stop : Span) (children : List EventTree)
      (content : List Inline) :
      BlockMirrors origin enclosures (.node .paragraph span stop children) [] (.paragraph content)
  | heading (enclosures : List Enclosure) (level : Nat) (span stop : Span)
      (children : List EventTree) (content : List Inline) :
      BlockMirrors origin enclosures (.node (.heading level) span stop children) []
        (.heading level content)
  | code (enclosures : List Enclosure) (info : Option Text) (span stop : Span)
      (children : List EventTree) (fence : Option Text) (label text : Text) :
      BlockMirrors origin enclosures (.node (.code info) span stop children) []
        (.verbatim (.code fence label text))
  | htmlBlock (enclosures : List Enclosure) (span stop : Span) (children : List EventTree)
      (text : Text) :
      BlockMirrors origin enclosures (.node .htmlBlock span stop children) []
        (.verbatim (.html text))
  | metadata (enclosures : List Enclosure) (span stop : Span) (children : List EventTree)
      (text : Text) :
      BlockMirrors origin enclosures (.node .metadata span stop children) []
        (.verbatim (.frontMatter text))
  | rule (enclosures : List Enclosure) (span : Span) (text : Text) :
      BlockMirrors origin enclosures (.leaf ⟨.rule, rfl⟩ span) [] (.verbatim (.rule text))
  | html (enclosures : List Enclosure) (text : Text) (span : Span) :
      BlockMirrors origin enclosures (.leaf ⟨.html text, rfl⟩ span) [] (.verbatim (.html text))
  | kept {enclosures : List Enclosure} {tree : EventTree} : tree.isKept →
      BlockMirrors origin enclosures tree []
        (.verbatim (.source (Enclosure.stripLines enclosures (origin.slice tree.span))))
  | quote (span stop : Span) {enclosures : List Enclosure} {children : List EventTree}
      {due : List Span} {inside : List Block} :
      BlocksMirror origin (enclosures ++ [.quote]) children due inside →
        BlockMirrors origin enclosures (.node .quote span stop children) due
          (.quote (enclosures.countP (· = .quote) + 1) inside)
  | list (number : Option Nat) (span stop : Span) (kind : ListKind) (tight : Bool)
      {enclosures : List Enclosure} {children : List EventTree} {due : List Span}
      {items : List (List Block)} : ItemsMirror origin enclosures children due items →
        BlockMirrors origin enclosures (.node (.list number) span stop children) due
          (.list kind tight items)

/--
The blocks of trees in containers, with the definitions between them. Inline content that is in no
paragraph becomes one, as far as it reaches.
-/
inductive BlocksMirror (origin : Origin) :
    List Enclosure → List EventTree → (due : List Span) → List Block → Prop where
  | nil (enclosures : List Enclosure) : BlocksMirror origin enclosures [] [] []
  | definition (span : Span) {enclosures : List Enclosure} {trees : List EventTree}
      {due : List Span} {blocks : List Block} : BlocksMirror origin enclosures trees due blocks →
        BlocksMirror origin enclosures trees (span :: due)
          (definition origin enclosures span :: blocks)
  | block {enclosures : List Enclosure} {tree : EventTree} {trees : List EventTree}
      {inner due : List Span} {block : Block} {blocks : List Block} :
      BlockMirrors origin enclosures tree inner block →
        BlocksMirror origin enclosures trees due blocks →
          BlocksMirror origin enclosures (tree :: trees) (inner ++ due) (block :: blocks)
  | run (run : List EventTree) (content : List Inline) {enclosures : List Enclosure}
      {trees : List EventTree} {due : List Span} {blocks : List Block} :
      run ≠ [] → (∀ tree ∈ run, tree.isInline) → (∀ tree ∈ trees.head?, ¬ tree.isInline) →
        BlocksMirror origin enclosures trees due blocks →
          BlocksMirror origin enclosures (run ++ trees) due (.paragraph content :: blocks)

inductive ItemsMirror (origin : Origin) :
    List Enclosure → List EventTree → (due : List Span) → List (List Block) → Prop where
  | nil (enclosures : List Enclosure) : ItemsMirror origin enclosures [] [] []
  | item (span stop : Span) (indent : Nat) {enclosures : List Enclosure}
      {children trees : List EventTree} {inner due : List Span} {inside : List Block}
      {items : List (List Block)} :
      BlocksMirror origin (enclosures ++ [.item indent]) children inner inside →
        ItemsMirror origin enclosures trees due items →
          ItemsMirror origin enclosures (.node .item span stop children :: trees) (inner ++ due)
            (inside :: items)

end

namespace BlocksMirror

theorem front {enclosures : List Enclosure} {trees : List EventTree} {due : List Span}
    {blocks : List Block} (definitions : List Span)
    (h : BlocksMirror origin enclosures trees due blocks) :
    BlocksMirror origin enclosures trees (definitions ++ due)
      (definitions.map (Document.definition origin enclosures) ++ blocks) := by
  induction definitions with
  | nil => exact h
  | cons definition definitions ih => exact .definition definition ih

theorem behind {enclosures : List Enclosure} {trees : List EventTree} {due : List Span}
    {blocks : List Block} (definitions : List Span)
    (h : BlocksMirror origin enclosures trees due blocks) :
    BlocksMirror origin enclosures trees (due ++ definitions)
      (blocks ++ definitions.map (Document.definition origin enclosures)) := by
  match h with
  | .nil _ => simpa using (@nil origin enclosures).front definitions
  | .definition span hrest => exact .definition span (hrest.behind definitions)
  | .block hblock hrest =>
      rw [List.append_assoc]
      exact .block hblock (hrest.behind definitions)
  | .run first content hfirst hinline hends hrest =>
      exact .run first content hfirst hinline hends (hrest.behind definitions)

end BlocksMirror

mutual

theorem BlockMirrors.quotesCounted {enclosures : List Enclosure} {tree : EventTree}
    {due : List Span} {block : Block} (h : BlockMirrors origin enclosures tree due block) :
    Block.quotesCounted (enclosures.countP (· = .quote)) block := by
  match h with
  | .paragraph .. => rfl
  | .heading .. => rfl
  | .code .. => rfl
  | .htmlBlock .. => rfl
  | .metadata .. => rfl
  | .rule .. => rfl
  | .html .. => rfl
  | .kept _ => rfl
  | .quote span stop hinside =>
      have hcounted := hinside.quotesCounted
      rw [List.countP_append] at hcounted
      exact Bool.and_eq_true_iff.mpr ⟨beq_self_eq_true _, hcounted⟩
  | .list _ _ _ _ _ hitems => exact hitems.quotesCounted

theorem BlocksMirror.quotesCounted {enclosures : List Enclosure} {trees : List EventTree}
    {due : List Span} {blocks : List Block} (h : BlocksMirror origin enclosures trees due blocks) :
    Block.allQuotesCounted (enclosures.countP (· = .quote)) blocks := by
  match h with
  | .nil _ => rfl
  | .definition _ hrest => exact hrest.quotesCounted
  | .block hblock hrest =>
      exact Bool.and_eq_true_iff.mpr ⟨hblock.quotesCounted, hrest.quotesCounted⟩
  | .run _ _ _ _ _ hrest => exact hrest.quotesCounted

theorem ItemsMirror.quotesCounted {enclosures : List Enclosure} {trees : List EventTree}
    {due : List Span} {items : List (List Block)}
    (h : ItemsMirror origin enclosures trees due items) :
    Block.itemQuotesCounted (enclosures.countP (· = .quote)) items := by
  match h with
  | .nil _ => rfl
  | .item _ _ indent hinside hrest =>
      have hcounted := hinside.quotesCounted
      rw [List.countP_append] at hcounted
      exact Bool.and_eq_true_iff.mpr ⟨hcounted, hrest.quotesCounted⟩

end

end Document

namespace Builder

open Document (BlockMirrors BlocksMirror ItemsMirror)

/-! ## What the builder makes of trees -/

/-- A tree has been made into its block: the definitions in it and all its events are taken. -/
def BlockMade (origin : Origin) (builder : Builder) (tree : EventTree) (rest : List Located)
    (made : Option Block × Builder) : Prop :=
  ∃ inner block, made.1 = some block ∧ BlockMirrors origin builder.enclosures tree inner block ∧
    builder.definitions = inner ++ made.2.definitions ∧ made.2.events = rest

def BlocksMade (origin : Origin) (builder : Builder) (trees : List EventTree)
    (rest : List Located) (made : List Block × Builder) : Prop :=
  ∃ due, BlocksMirror origin builder.enclosures trees due made.1 ∧
    builder.definitions = due ++ made.2.definitions ∧ made.2.events = rest.tail

def ItemsMade (origin : Origin) (builder : Builder) (trees : List EventTree)
    (rest : List Located) (made : List (List Block) × Builder) : Prop :=
  ∃ due, ItemsMirror origin builder.enclosures trees due made.1 ∧
    builder.definitions = due ++ made.2.definitions ∧ made.2.events = rest.tail

theorem BlocksMade.events {builder : Builder} {trees : List EventTree} {rest : List Located}
    {made : List Block × Builder} (h : BlocksMade origin builder trees rest made) :
    made.2.events = rest.tail := by
  obtain ⟨-, -, -, hrest⟩ := h
  exact hrest

theorem BlocksMade.item {builder : Builder} {indent : Nat} {span stop : Span}
    {children trees : List EventTree} {left rest : List Located} {first : List Block × Builder}
    {made : List (List Block) × Builder} {entered : List Located}
    (h : BlocksMade origin (enter (.item indent) { builder with events := entered }) children
      left first)
    (hwithin : first.2.leave.enclosures = builder.enclosures)
    (hmade : ItemsMade origin first.2.leave trees rest made) :
    ItemsMade origin builder (.node .item span stop children :: trees) rest
      (first.1 :: made.1, made.2) := by
  obtain ⟨inner, hmirror, hinner, -⟩ := h
  obtain ⟨due, hmirrors, hdue, hrest⟩ := hmade
  rw [hwithin] at hmirrors
  refine ⟨inner ++ due, .item span stop indent hmirror hmirrors, ?_, hrest⟩
  have hfirst : first.2.definitions = due ++ made.2.definitions := hdue
  have hbuilder : builder.definitions = inner ++ first.2.definitions := hinner
  rw [hbuilder, hfirst, List.append_assoc]

theorem exists_due (position : Nat) (builder : Builder) :
    ∃ due later, builder.definitions = due ++ later ∧ flush origin position builder =
      (due.map (Document.definition origin builder.enclosures),
        { builder with definitions := later }) := by
  refine ⟨_, _, ?_, rfl⟩
  exact (List.prefix_iff_eq_append.mp (List.takeWhile_prefix _)).symm

theorem BlocksMade.front {builder after : Builder} {trees : List EventTree}
    {rest : List Located} {blocks : List Block} {last : Builder} (due : List Span)
    (h : BlocksMade origin after trees rest (blocks, last))
    (hwithin : after.enclosures = builder.enclosures)
    (hdue : builder.definitions = due ++ after.definitions) :
    BlocksMade origin builder trees rest
      (due.map (Document.definition origin builder.enclosures) ++ blocks, last) := by
  obtain ⟨others, hmirror, hothers, hrest⟩ := h
  rw [hwithin] at hmirror
  refine ⟨due ++ others, hmirror.front due, ?_, hrest⟩
  rw [hdue, hothers, List.append_assoc]

theorem BlockMade.events {builder : Builder} {tree : EventTree} {rest : List Located}
    {made : Option Block × Builder} (h : BlockMade origin builder tree rest made) :
    made.2.events = rest := by
  obtain ⟨-, -, -, -, -, hrest⟩ := h
  exact hrest

theorem BlockMade.blocks {builder : Builder} {tree : EventTree} {trees : List EventTree}
    {rest left : List Located} {first : Option Block × Builder} {made : List Block × Builder}
    (h : BlockMade origin builder tree left first)
    (hwithin : first.2.enclosures = builder.enclosures)
    (hmade : BlocksMade origin first.2 trees rest made) :
    BlocksMade origin builder (tree :: trees) rest (first.1.toList ++ made.1, made.2) := by
  obtain ⟨inner, block, hblock, hmirror, hinner, -⟩ := h
  obtain ⟨due, hmirrors, hdue, hrest⟩ := hmade
  rw [hwithin] at hmirrors
  rw [hblock]
  refine ⟨inner ++ due, .block hmirror hmirrors, ?_, hrest⟩
  rw [hinner, hdue, List.append_assoc]

theorem BlocksMade.run {builder after : Builder} {tree : EventTree} {trees : List EventTree}
    {rest : List Located} {made : List Block × Builder} (content : List Inline)
    (hinline : tree.isInline)
    (h : BlocksMade origin after (trees.dropWhile EventTree.isInline) rest made)
    (hwithin : after.enclosures = builder.enclosures)
    (hdefinitions : after.definitions = builder.definitions) :
    BlocksMade origin builder (tree :: trees) rest (.paragraph content :: made.1, made.2) := by
  obtain ⟨due, hmirror, hdue, hrest⟩ := h
  rw [hwithin] at hmirror
  rw [hdefinitions] at hdue
  refine ⟨due, ?_, hdue, hrest⟩
  have hsplit : tree :: trees =
      (tree :: trees.takeWhile EventTree.isInline) ++ trees.dropWhile EventTree.isInline := by
    rw [List.cons_append, List.takeWhile_append_dropWhile]
  rw [hsplit]
  refine .run _ content (List.cons_ne_nil _ _) ?_ ?_ hmirror
  · refine List.forall_mem_cons.mpr ⟨hinline, fun tree htree => ?_⟩
    exact List.mem_takeWhile_imp htree
  · intro tree htree
    have := List.head?_dropWhile_not EventTree.isInline trees
    rw [Option.mem_def.mp htree] at this
    simpa using this

mutual

theorem blockMade (fuel : Nat) {tree : EventTree} (hinline : ¬ tree.isInline)
    (h : tree.isWellNested) (hfuel : 2 * (inside tree).length + 1 ≤ fuel) (builder : Builder)
    {rest : List Located} (hevents : builder.events = inside tree ++ rest) :
    BlockMade origin builder tree rest (block origin fuel tree.event tree.span builder) := by
  obtain ⟨fuel, rfl⟩ : ∃ n, fuel = n + 1 := ⟨fuel - 1, by omega⟩
  cases tree with
  | leaf event span =>
      obtain ⟨event, hleaf⟩ := event
      cases event with
      | rule => exact ⟨[], _, rfl, .rule _ span _, rfl, hevents⟩
      | html text => exact ⟨[], _, rfl, .html _ text span, rfl, hevents⟩
      | displayMath => exact ⟨[], _, rfl, .kept rfl, rfl, hevents⟩
      | enter tag => exact nomatch hleaf
      | leave => exact nomatch hleaf
      | _ => exact absurd rfl hinline
  | node tag span stop children =>
      simp only [inside, List.length_append, List.length_singleton] at hfuel
      simp only [inside, List.append_assoc, List.singleton_append] at hevents
      obtain ⟨hadmits, hnested⟩ := Bool.and_eq_true_iff.mp h
      have hinlines := @events_inlines_trees origin fuel children (by omega) [] builder _ _
        hevents
      have hmoves := @moves_inlines origin fuel [] builder
      cases tag with
      | paragraph =>
          exact ⟨[], _, rfl, .paragraph _ span stop children _, hmoves.definitions.symm, hinlines⟩
      | heading level =>
          exact ⟨[], _, rfl, .heading _ level span stop children _, hmoves.definitions.symm,
            hinlines⟩
      | code info =>
          exact ⟨[], _, rfl, .code _ info span stop children _ _ _, rfl,
            events_literal hadmits hevents⟩
      | htmlBlock =>
          exact ⟨[], _, rfl, .htmlBlock _ span stop children _, rfl,
            events_literal hadmits hevents⟩
      | metadata =>
          exact ⟨[], _, rfl, .metadata _ span stop children _, rfl, events_literal hadmits hevents⟩
      | quote =>
          obtain ⟨due, hmirror, hdue, hrest⟩ := blocksMade fuel hnested (by omega)
            (builder.enter .quote) (.inr ⟨stop, rest, rfl⟩) hevents
          have hdepth : (builder.enter .quote).quoteDepth =
              builder.enclosures.countP (· = .quote) + 1 := by
            rw [quoteDepth, enter, List.countP_append]
            rfl
          refine ⟨due, _, rfl, ?_, hdue, hrest⟩
          rw [hdepth]
          exact .quote span stop hmirror
      | list number =>
          obtain ⟨due, hmirror, hdue, hrest⟩ := itemsMade fuel number none hnested hadmits
            (by omega) builder hevents
          exact ⟨due, _, rfl, .list number span stop _ _ hmirror, hdue, hrest⟩
      | emphasis => exact absurd rfl hinline
      | strong => exact absurd rfl hinline
      | strike => exact absurd rfl hinline
      | link image form destination title => exact absurd rfl hinline
      | _ => exact ⟨[], _, rfl, .kept rfl, rfl, events_skip hevents⟩

theorem blocksMade (fuel : Nat) {trees : List EventTree} (h : areWellNested trees)
    (hfuel : 2 * (flatten trees).length + 1 ≤ fuel) (builder : Builder) {rest : List Located}
    (hends : Ends rest) (hevents : builder.events = flatten trees ++ rest) :
    BlocksMade origin builder trees rest (blocks origin fuel builder) := by
  obtain ⟨fuel, rfl⟩ : ∃ n, fuel = n + 1 := ⟨fuel - 1, by omega⟩
  cases trees with
  | nil =>
      rw [blocks, hevents]
      rcases hends with rfl | ⟨stop, rest, rfl⟩
      · exact ⟨[], .nil _, rfl, hevents⟩
      · obtain ⟨due, later, hdue, hflush⟩ :=
          @exists_due origin stop.stop { builder with events := rest }
        simp only [flatten, List.nil_append, hflush]
        exact ⟨due, by simpa using (BlocksMirror.nil builder.enclosures).front due, hdue, rfl⟩
  | cons tree trees =>
      obtain ⟨hfirst, hothers⟩ := areWellNested_cons.mp h
      simp only [flatten, List.length_cons, List.length_append] at hfuel
      simp only [flatten, List.cons_append, List.append_assoc] at hevents
      rw [blocks_event tree.event_ne_leave builder hevents]
      obtain ⟨due, later, hdue, hflush⟩ := @exists_due origin tree.span.start
        { builder with events := inside tree ++ (flatten trees ++ rest) }
      simp only [hflush, List.append_assoc]
      let entered : Builder :=
        { builder with events := inside tree ++ (flatten trees ++ rest), definitions := later }
      refine @BlocksMade.front origin builder entered _ _ _ _ due ?_ rfl hdue
      by_cases hinline : tree.isInline
      · obtain ⟨fuel, rfl⟩ : ∃ n, fuel = n + 1 := ⟨fuel - 1, by omega⟩
        rw [block_loose hinline]
        let read := inline origin fuel tree.event tree.span [] entered
        have hread : read.2.events = flatten trees ++ rest :=
          events_inline_tree fuel tree (by omega) [] entered rfl
        have hrun := @events_looseInlines_trees origin fuel trees (by omega) read.1 read.2 _ hends
          hread
        have hmoves := (@moves_inline origin fuel tree.event tree.span [] entered).trans
          (@moves_looseInlines origin fuel read.1 read.2)
        obtain ⟨hnested, hlength⟩ := EventTree.dropWhile_isInline hothers
        exact BlocksMade.run _ hinline
          (blocksMade (fuel + 1) hnested (by omega) _ hends hrun) hmoves.enclosures
          hmoves.definitions
      · have hmade := @blockMade fuel tree hinline hfirst (by omega) entered _ rfl
        exact hmade.blocks (enclosures_block fuel tree.event tree.span entered)
          (blocksMade fuel hothers (by omega) _ hends hmade.events)

theorem itemsMade (fuel : Nat) (number : Option Nat) (kind : Option ListKind)
    {trees : List EventTree} (h : areWellNested trees) (hitems : trees.all EventTree.isItem)
    (hfuel : 2 * (flatten trees).length + 1 ≤ fuel) (builder : Builder) {stop : Span}
    {rest : List Located} (hevents : builder.events = flatten trees ++ (.leave, stop) :: rest) :
    ItemsMade origin builder trees ((.leave, stop) :: rest)
      (items origin fuel number kind builder).2.2 := by
  obtain ⟨fuel, rfl⟩ : ∃ n, fuel = n + 1 := ⟨fuel - 1, by omega⟩
  cases trees with
  | nil =>
      rw [items, hevents]
      exact ⟨[], .nil _, rfl, rfl⟩
  | cons tree trees =>
      obtain ⟨hfirst, hothers⟩ := areWellNested_cons.mp h
      obtain ⟨hitem, hitems⟩ := Bool.and_eq_true_iff.mp ((List.all_cons).symm.trans hitems)
      obtain ⟨span, last, children, rfl⟩ := EventTree.exists_item hitem
      simp only [flatten, inside, List.length_cons, List.length_append] at hfuel
      simp only [flatten, inside, List.cons_append, List.append_assoc, List.nil_append] at hevents
      obtain ⟨indent, kind', hmade⟩ := @exists_items origin fuel _ _ number kind
        builder hevents
      rw [hmade]
      have hnested : areWellNested children = true := hfirst
      have hinside := blocksMade fuel hnested (by omega)
        (enter (.item indent)
          { builder with
            events := flatten children ++
              (.leave, last) :: (flatten trees ++ (.leave, stop) :: rest) })
        (.inr ⟨last, _, rfl⟩) rfl
      exact hinside.item (enclosures_leave (enclosures_blocks fuel _))
        (itemsMade fuel number kind' hothers hitems (by omega) _ hinside.events)

end

/-! ## Nodes are left where their events end -/

/-- All events up to `rest` are taken, and the containers are as they were. -/
structure Passes (rest : List Located) (builder after : Builder) : Prop where
  events : after.events = rest
  enclosures : after.enclosures = builder.enclosures

/--
What is made of a tree ends behind its last event, whatever follows. A run of inline content that
is in no paragraph ends in front of the next tree that is not inline.
-/
structure EndsWith (origin : Origin) (tree : EventTree) : Prop where
  asInline (fuel : Nat) (content : List Inline) (builder : Builder) (rest : List Located) :
    2 * (inside tree).length + 1 ≤ fuel → builder.events = inside tree ++ rest →
      Passes rest builder (inline origin fuel tree.event tree.span content builder).2
  asBlock (fuel : Nat) (builder : Builder) (rest : List Located) : ¬ tree.isInline →
    2 * (inside tree).length + 1 ≤ fuel → builder.events = inside tree ++ rest →
      Passes rest builder (block origin fuel tree.event tree.span builder).2
  asRun (fuel : Nat) (builder : Builder) (trees : List EventTree) (rest : List Located) :
    tree.isInline → Ends rest → 2 * (inside tree ++ flatten trees).length + 2 ≤ fuel →
      builder.events = inside tree ++ (flatten trees ++ rest) →
        Passes (flatten (trees.dropWhile EventTree.isInline) ++ rest) builder
          (block origin fuel tree.event tree.span builder).2
  asItem (fuel indent : Nat) (builder : Builder) (rest : List Located) : tree.isItem →
    2 * (inside tree).length + 1 ≤ fuel → builder.events = inside tree ++ rest →
      Passes rest builder (blocks origin fuel (builder.enter (.item indent))).2.leave

theorem endsWith {tree : EventTree} (h : tree.isWellNested) : EndsWith origin tree where
  asInline fuel content builder rest hfuel hevents :=
    ⟨events_inline_tree fuel tree hfuel content builder hevents,
      (moves_inline fuel tree.event tree.span content builder).enclosures⟩
  asBlock fuel builder rest hinline hfuel hevents :=
    ⟨(blockMade fuel hinline h hfuel builder hevents).events,
      enclosures_block fuel tree.event tree.span builder⟩
  asRun fuel builder trees rest hinline hends hfuel hevents := by
    refine ⟨?_, enclosures_block fuel tree.event tree.span builder⟩
    rw [List.length_append] at hfuel
    obtain ⟨fuel, rfl⟩ : ∃ n, fuel = n + 1 := ⟨fuel - 1, by omega⟩
    rw [block_loose hinline]
    exact events_looseInlines_trees fuel trees (by omega) _ _ hends
      (events_inline_tree fuel tree (by omega) [] builder hevents)
  asItem fuel indent builder rest hitem hfuel hevents := by
    obtain ⟨span, stop, children, rfl⟩ := EventTree.exists_item hitem
    have hnested : areWellNested children := h
    simp only [inside, List.length_append, List.length_singleton] at hfuel
    simp only [inside, List.append_assoc, List.singleton_append] at hevents
    exact ⟨(blocksMade fuel hnested (by omega) (builder.enter (.item indent))
      (.inr ⟨stop, rest, rfl⟩) hevents).events, enclosures_leave (enclosures_blocks fuel _)⟩

end Builder

namespace Document

open EventTree Builder

theorem blocksMirror_ofEvents {trees : List EventTree} (h : areWellNested trees)
    (definitions : List Span) :
    BlocksMirror origin [] trees definitions (ofEvents origin (flatten trees) definitions) := by
  obtain ⟨due, hmirror, hdue, -⟩ := @blocksMade origin _ trees h (Nat.le_refl _)
    { events := flatten trees, definitions := definitions } [] (.inl rfl) (by simp)
  have hall := hmirror.behind (blocks origin (2 * (flatten trees).length + 1)
    { events := flatten trees, definitions := definitions }).2.definitions
  rw [← hdue] at hall
  rw [ofEvents]
  simp only [Builder.slice, enclosures_blocks]
  exact hall

/-- In the document of any source, the depth of a quote is the number of quotes it stands in. -/
theorem quotesCounted_readFrom (extensions : Extensions) (origin : Origin) :
    Block.allQuotesCounted 0 (readFrom extensions origin) := by
  obtain ⟨trees, hnested, hevents, -⟩ :=
    EventTree.exists_trees (Source.SourceRead.shape_ofSource extensions origin.source)
  rw [readFrom, ← hevents]
  exact (blocksMirror_ofEvents hnested _).quotesCounted

/--
A document mirrors well-nested events. All events are taken, each tree with its own, containers
are left again and each definition becomes a block.
-/
theorem mirrors_ofEvents (origin : Origin) (definitions : List Span) (trees : List EventTree)
    (h : areWellNested trees) :
    let document := ofEvents origin (flatten trees) definitions
    let builder : Builder := { events := flatten trees, definitions := definitions }
    BlocksMirror origin [] trees definitions document ∧ Block.allQuotesCounted 0 document ∧
      Passes [] builder (blocks origin (2 * (flatten trees).length + 1) builder).2 ∧
        ∀ tree : EventTree, tree.isWellNested → EndsWith origin tree := by
  intro document builder
  have hmirror : BlocksMirror origin [] trees definitions document :=
    blocksMirror_ofEvents h definitions
  have hmade := @blocksMade origin _ trees h (Nat.le_refl _) builder [] (.inl rfl)
    (List.append_nil _).symm
  exact ⟨hmirror, hmirror.quotesCounted, ⟨hmade.events, enclosures_blocks _ builder⟩,
    fun tree htree => endsWith htree⟩

def quotedItem : List EventTree :=
  [.node .quote (.upTo 0 41) (.upTo 0 41)
    [.node (.list none) (.upTo 2 14) (.upTo 2 14)
      [.node .item (.upTo 2 14) (.upTo 2 14)
        [.leaf ⟨.text ['a'], rfl⟩ (.upTo 4 5),
          .node .quote (.upTo 10 14) (.upTo 10 14)
            [.node .paragraph (.upTo 12 14) (.upTo 12 14) [.leaf ⟨.text ['b'], rfl⟩
            (.upTo 12 13)]]]],
      .node .table (.upTo 31 41) (.upTo 31 41)
        [.node .tableHead (.upTo 31 35) (.upTo 31 35)
          [.node .tableCell (.upTo 32 33) (.upTo 32 33) [.leaf ⟨.text ['c'], rfl⟩ (.upTo 32 33)]]]]]

def quotedOrigin : Origin :=
  .same "> - a\n>   > b\n> \n> [x]: y\n> \n> |c|\n> |-|\n".toList

theorem mirrors_ofEvents_quotedItem :
    areWellNested quotedItem ∧
      BlocksMirror quotedOrigin [] quotedItem [.upTo 19 25]
        (ofEvents quotedOrigin (flatten quotedItem) [.upTo 19 25]) ∧
      Block.allQuotesCounted 0 (ofEvents quotedOrigin (flatten quotedItem) [.upTo 19 25]) ∧
      ofEvents quotedOrigin (flatten quotedItem) [.upTo 19 25] =
        [.quote 1
          [.list (.bullet '-') true
            [[.paragraph [.leaf (.text ['a'])], .quote 2 [.paragraph [.leaf (.text ['b'])]]]],
            .verbatim (.source "[x]: y".toList), .verbatim (.source "|c|\n|-|\n".toList)]] := by
  have hnested : areWellNested quotedItem := rfl
  obtain ⟨hmirror, hcounted, -, -⟩ := mirrors_ofEvents quotedOrigin [.upTo 19 25] quotedItem hnested
  exact ⟨hnested, hmirror, hcounted, by cbv⟩

end Document

end Canonmark
