import Canonmark.Proofs.Source.EventShape

/-!
# Outlines of documents

The builder makes a block of every block of the events, in their order: the document of a source
has the outline of its blocks.
-/

namespace Canonmark

open Source (Event Located InlineShape Shape)

namespace Builder

variable {origin : Origin} {rest : List Located} {stop : Span}

def Balanced (events : List Located) : Prop :=
  ∀ depth rest, skipFrom depth (events ++ rest) = skipFrom depth rest

theorem Balanced.skip {events : List Located} (h : Balanced events) (stop : Span)
    (rest : List Located) : skipFrom 0 (events ++ (.leave, stop) :: rest) = rest := by
  rw [h]
  rfl

theorem Balanced.enclosed {events after : List Located} {tag : Source.Tag} {span stop : Span}
    (h : Balanced events) (hafter : Balanced after) :
    Balanced ((.enter tag, span) :: events ++ (.leave, stop) :: after) := by
  intro depth rest
  rw [List.append_assoc, List.cons_append, skipFrom, h, List.cons_append, skipFrom, hafter]

theorem skipFrom_atom (depth : Nat) (atom : Source.InlineAtom) (span : Span)
    (rest : List Located) :
    skipFrom depth ((atom.event, span) :: rest) = skipFrom depth rest := by
  cases atom <;> cases depth <;> rfl

theorem balanced_inlineShape {events : List Located} (h : InlineShape events) :
    Balanced events := by
  induction h with
  | nil => exact fun _ _ => rfl
  | atom atom span _ ih => exact fun depth rest => (skipFrom_atom _ _ _ _).trans (ih depth rest)
  | hardBreak span _ ih =>
      intro depth rest
      cases depth <;> exact ih _ rest
  | group tag span stop _ _ ihChildren ih => exact ihChildren.enclosed ih

theorem balanced_pieceEvents (pieces : List Source.LocatedPiece) :
    Balanced (Source.SourceRead.pieceEvents pieces) := by
  induction pieces with
  | nil => exact fun _ _ => rfl
  | cons piece pieces ih =>
      obtain ⟨piece, span⟩ := piece
      intro depth rest
      cases piece <;> cases depth <;> exact ih _ rest

theorem balanced_shape {source : Text} {place : Place} {events : List Located}
    {found : List Outline} (h : Shape source place events found) : Balanced events := by
  induction h with
  | nil => exact fun _ _ => rfl
  | atom atom span _ ih => exact fun depth rest => (skipFrom_atom _ _ _ _).trans (ih depth rest)
  | hardBreak span _ ih =>
      intro depth rest
      cases depth <;> exact ih _ rest
  | rule span _ _ ih =>
      intro depth rest
      cases depth <;> exact ih _ rest
  | group tag span stop hchildren _ ih => exact (balanced_inlineShape hchildren).enclosed ih
  | paragraph span stop _ hchildren _ ih => exact (balanced_inlineShape hchildren).enclosed ih
  | heading level span stop _ hchildren _ ih => exact (balanced_inlineShape hchildren).enclosed ih
  | literal tag span stop pieces _ _ _ ih => exact (balanced_pieceEvents pieces).enclosed ih
  | quote span stop _ _ _ ihChildren ih => exact ihChildren.enclosed ih
  | list number span stop _ _ _ ihChildren ih => exact ihChildren.enclosed ih
  | item span stop _ _ ihChildren ih => exact ihChildren.enclosed ih
  | kept tag span stop _ _ _ _ ihChildren ih => exact ihChildren.enclosed ih

theorem literalFrom_pieceEvents (pieces : List Source.LocatedPiece) (stop : Span)
    (rest : List Located) :
    literalFrom (Source.SourceRead.pieceEvents pieces ++ (.leave, stop) :: rest) =
      (Source.literalText pieces, rest) := by
  induction pieces with
  | nil => rfl
  | cons piece pieces ih =>
      obtain ⟨piece, span⟩ := piece
      cases piece <;>
        simp only [Source.SourceRead.pieceEvents, Source.literalText, List.map_cons,
          List.cons_append, literalFrom, Source.LiteralPiece.event, List.flatMap_cons] at ih ⊢ <;>
        rw [ih] <;> rfl

/-! ## Inline content -/

theorem events_pushText (span : Span) (content : List Inline) (builder : Builder) :
    (pushText origin span content builder).2.events = builder.events := by
  unfold pushText
  simp only
  split <;> rfl

theorem events_inline_atom (fuel : Nat) (atom : Source.InlineAtom) (span : Span)
    (content : List Inline) (builder : Builder) :
    (inline origin (fuel + 1) atom.event span content builder).2.events = builder.events := by
  cases atom with
  | text text => exact events_pushText span content builder
  | _ => rfl

theorem events_inline_hardBreak (fuel : Nat) (span : Span) (content : List Inline)
    (builder : Builder) :
    (inline origin (fuel + 1) .hardBreak span content builder).2.events = builder.events := rfl

theorem events_inline_group {fuel : Nat} (tag : Source.InlineTag) {span : Span}
    {children : List Located} (hchildren : InlineShape children)
    (hinlines : ∀ (content : List Inline) (builder : Builder),
      builder.events = children ++ (.leave, stop) :: rest →
        (inlines origin fuel content builder).2.events = rest)
    (content : List Inline) (builder : Builder)
    (h : builder.events = children ++ (.leave, stop) :: rest) :
    (inline origin (fuel + 1) (.enter tag.tag) span content builder).2.events = rest := by
  have hskip : builder.skip.events = rest := by
    rw [skip, h]
    exact (balanced_inlineShape hchildren).skip stop rest
  have hnode := hinlines [] builder h
  cases tag with
  | link image form destination title =>
      cases form <;> cases image <;> first | exact hnode | exact hskip
  | _ => exact hnode

theorem inlines_cons {fuel : Nat} {event : Event} {span : Span} (hleave : event ≠ .leave)
    (content : List Inline) (builder : Builder) (h : builder.events = (event, span) :: rest) :
    inlines origin (fuel + 1) content builder =
      inlines origin fuel
        (inline origin fuel event span content { builder with events := rest }).1
        (inline origin fuel event span content { builder with events := rest }).2 := by
  rw [inlines, h]
  cases event with
  | leave => exact absurd rfl hleave
  | _ => rfl

theorem event_ne_leave (atom : Source.InlineAtom) : atom.event ≠ .leave := by
  cases atom <;> simp [Source.InlineAtom.event]

theorem events_inlines {fuel : Nat} {children : List Located} (h : InlineShape children)
    (hfuel : 2 * children.length + 1 ≤ fuel) (content : List Inline) (builder : Builder)
    (hevents : builder.events = children ++ (.leave, stop) :: rest) :
    (inlines origin fuel content builder).2.events = rest := by
  -- A group takes two off the fuel, what stands behind it one, so that plain induction is too weak.
  induction fuel using Nat.strongRecOn generalizing children content builder stop rest with
  | ind fuel ih =>
  cases h with
  | nil =>
      obtain ⟨fuel, rfl⟩ : ∃ n, fuel = n + 1 := ⟨fuel - 1, by omega⟩
      simp [inlines, hevents]
  | atom atom span hrest =>
      simp only [List.length_cons] at hfuel
      obtain ⟨fuel, rfl⟩ : ∃ n, fuel = n + 2 := ⟨fuel - 2, by omega⟩
      rw [inlines_cons (event_ne_leave atom) content builder hevents]
      exact ih (fuel + 1) (by omega) hrest (by omega) _ _ (events_inline_atom fuel atom span _ _)
  | hardBreak span hrest =>
      simp only [List.length_cons] at hfuel
      obtain ⟨fuel, rfl⟩ : ∃ n, fuel = n + 2 := ⟨fuel - 2, by omega⟩
      rw [inlines_cons (by simp) content builder hevents]
      exact ih (fuel + 1) (by omega) hrest (by omega) _ _ (events_inline_hardBreak fuel span _ _)
  | group tag span inner hchildren hrest =>
      rename_i children after
      simp only [List.length_cons, List.length_append] at hfuel
      obtain ⟨fuel, rfl⟩ : ∃ n, fuel = n + 2 := ⟨fuel - 2, by omega⟩
      simp only [List.cons_append, List.append_assoc] at hevents
      have hgroup := @events_inline_group origin (after ++ (.leave, stop) :: rest) inner fuel tag
        span children hchildren (fun content builder h =>
          ih fuel (by omega) hchildren (by omega) content builder h) content
        { builder with
          events := children ++ (.leave, inner) :: (after ++ (.leave, stop) :: rest) } rfl
      rw [inlines_cons (by simp) content builder hevents]
      exact ih (fuel + 1) (by omega) hrest (by omega) _ _ hgroup

theorem isInline_atom (atom : Source.InlineAtom) : isInline atom.event = true := by
  cases atom <;> rfl

theorem isInline_group (tag : Source.InlineTag) : isInline (.enter tag.tag) = true := by
  cases tag <;> rfl

def Ends (events : List Located) : Prop :=
  events = [] ∨ ∃ stop rest, events = (.leave, stop) :: rest

/-- Of an inline event and what it enters, a builder leaves `later`. -/
def Inlined (origin : Origin) (fuel : Nat) (event : Event) (span : Span)
    (entered later : List Located) : Prop :=
  isInline event = true ∧ ∀ (content : List Inline) (builder : Builder),
    builder.events = entered → (inline origin fuel event span content builder).2.events = later

theorem inlined_atom {fuel : Nat} (hfuel : 1 ≤ fuel) (atom : Source.InlineAtom) (span : Span)
    (rest : List Located) : Inlined origin fuel atom.event span rest rest := by
  obtain ⟨fuel, rfl⟩ := Nat.exists_eq_add_of_le' hfuel
  exact ⟨isInline_atom atom, fun content builder hevents =>
    (events_inline_atom fuel atom span content builder).trans hevents⟩

theorem inlined_hardBreak {fuel : Nat} (hfuel : 1 ≤ fuel) (span : Span) (rest : List Located) :
    Inlined origin fuel .hardBreak span rest rest := by
  obtain ⟨fuel, rfl⟩ := Nat.exists_eq_add_of_le' hfuel
  exact ⟨rfl, fun content builder hevents =>
    (events_inline_hardBreak fuel span content builder).trans hevents⟩

theorem inlined_group {fuel : Nat} {children : List Located} (h : InlineShape children)
    (hfuel : 2 * children.length + 2 ≤ fuel) (tag : Source.InlineTag) (span stop : Span)
    (rest : List Located) :
    Inlined origin fuel (.enter tag.tag) span (children ++ (.leave, stop) :: rest) rest := by
  obtain ⟨fuel, rfl⟩ : ∃ n, fuel = n + 1 := ⟨fuel - 1, by omega⟩
  refine ⟨isInline_group tag, events_inline_group tag h fun content builder hevents => ?_⟩
  exact events_inlines h (by omega) content builder hevents

/-- Loose inline content is read off the events of an item, and all other events are left. -/
def LeavesBlocks (origin : Origin) (fuel : Nat) (events after : List Located)
    (found : List Outline) : Prop :=
  ∀ (content : List Inline) (builder : Builder), builder.events = events ++ after →
    ∃ events', Shape origin.source .item events' found ∧ events'.length ≤ events.length ∧
      (looseInlines origin fuel content builder).2.events = events' ++ after

theorem LeavesBlocks.of_block {fuel : Nat} {events after : List Located} {found : List Outline}
    (h : Shape origin.source .item events found)
    (hhead : ∀ first ∈ (events ++ after).head?, isInline first.1 = false) :
    LeavesBlocks origin (fuel + 1) events after found := by
  intro content builder hevents
  refine ⟨events, h, Nat.le_refl _, ?_⟩
  rw [← hevents] at hhead ⊢
  rw [looseInlines]
  split
  · rfl
  · next event span rest heq =>
      have hinline : isInline event = false := hhead (event, span) (by simp [heq])
      rw [if_neg (by simp [hinline])]

theorem LeavesBlocks.inlined {fuel : Nat} {event : Event} {span : Span}
    {entered rest after : List Located} {found : List Outline}
    (h : LeavesBlocks origin fuel rest after found)
    (hinlined : Inlined origin fuel event span (entered ++ after) (rest ++ after))
    (hlength : rest.length ≤ entered.length) :
    LeavesBlocks origin (fuel + 1) ((event, span) :: entered) after found := by
  intro content builder hevents
  obtain ⟨hinline, hrest⟩ := hinlined
  obtain ⟨events', hshape, hshorter, hread⟩ := h
    (inline origin fuel event span content { builder with events := entered ++ after }).1 _
    (hrest content { builder with events := entered ++ after } rfl)
  refine ⟨events', hshape, Nat.le_succ_of_le (Nat.le_trans hshorter hlength), ?_⟩
  rw [looseInlines, hevents]
  simp only [List.cons_append, hinline, if_true]
  exact hread

theorem leavesBlocks {fuel : Nat} {events after : List Located} {found : List Outline}
    (h : Shape origin.source .item events found) (hends : Ends after)
    (hfuel : 2 * events.length + 1 ≤ fuel) : LeavesBlocks origin fuel events after found := by
  induction fuel generalizing events with
  | zero => exact absurd hfuel (by omega)
  | succ fuel ih =>
  have hshape := h
  cases h with
  | nil =>
      refine LeavesBlocks.of_block hshape fun first hfirst => ?_
      rcases hends with rfl | ⟨stop, rest, rfl⟩
      · cases hfirst
      · cases hfirst
        rfl
  | atom atom span hrest =>
      simp only [List.length_cons] at hfuel
      exact (ih hrest (by omega)).inlined (inlined_atom (by omega) atom span _) (Nat.le_refl _)
  | hardBreak span hrest =>
      simp only [List.length_cons] at hfuel
      exact (ih hrest (by omega)).inlined (inlined_hardBreak (by omega) span _) (Nat.le_refl _)
  | group tag span stop hchildren hrest =>
      simp only [List.length_cons, List.length_append] at hfuel
      refine (ih hrest (by omega)).inlined ?_ (by simp; omega)
      rw [List.append_eq, List.append_assoc]
      exact inlined_group hchildren (by omega) tag span stop _
  | paragraph => exact LeavesBlocks.of_block hshape (by simp [isInline])
  | heading => exact LeavesBlocks.of_block hshape (by simp [isInline])
  | rule => exact LeavesBlocks.of_block hshape (by simp [isInline])
  | literal tag span stop pieces hplace htag hrest =>
      refine LeavesBlocks.of_block hshape ?_
      cases tag with
      | code info => simp [isInline]
      | htmlBlock => simp [isInline]
      | metadata => simp [isInline]
      | _ => cases htag
  | quote => exact LeavesBlocks.of_block hshape (by simp [isInline])
  | list => exact LeavesBlocks.of_block hshape (by simp [isInline])
  | kept tag span stop hplace htag hchildren hrest =>
      refine LeavesBlocks.of_block hshape ?_
      rcases htag with rfl | rfl <;> simp [isInline]

/-! ## Blocks -/

theorem outlines_flush (place : Place) (position : Nat) (builder : Builder) :
    Block.outlines place (flush origin position builder).1 = [] := by
  unfold flush
  simp only
  induction builder.definitions.takeWhile (·.start < position) with
  | nil => rfl
  | cons span spans ih =>
      rw [List.map_cons, Block.outlines, ih]
      rfl

def madeOutline (place : Place) (made : Option Block × Builder) : List Outline :=
  Block.outlines place made.1.toList

theorem blocks_event {fuel : Nat} {event : Event} {span : Span} (hleave : event ≠ .leave)
    (builder : Builder) (h : builder.events = (event, span) :: rest) :
    blocks origin (fuel + 1) builder =
      let flushed := flush origin span.start { builder with events := rest }
      let made := block origin fuel event span flushed.2
      let others := blocks origin fuel made.2
      (flushed.1 ++ made.1.toList ++ others.1, others.2) := by
  rw [blocks, h]
  cases event with
  | leave => exact absurd rfl hleave
  | _ => rfl

theorem blocks_cons {fuel : Nat} {event : Event} {span : Span} (hleave : event ≠ .leave)
    (builder : Builder) (h : builder.events = (event, span) :: rest) (place : Place) :
    ∃ entered : Builder, entered.events = rest ∧
      Block.outlines place (blocks origin (fuel + 1) builder).1 =
        madeOutline place (block origin fuel event span entered) ++
          Block.outlines place
            (blocks origin fuel (block origin fuel event span entered).2).1 ∧
      (blocks origin (fuel + 1) builder).2 =
        (blocks origin fuel (block origin fuel event span entered).2).2 := by
  refine ⟨(flush origin span.start { builder with events := rest }).2, rfl, ?_⟩
  rw [blocks_event hleave builder h]
  refine ⟨?_, rfl⟩
  simp only [Block.outlines_append, outlines_flush, List.nil_append, madeOutline]

/-- What is read of the events of a shape, at a fuel. -/
structure Keeps (origin : Origin) (fuel : Nat) : Prop where
  blocks {place : Place} {events after : List Located} {found : List Outline}
      (builder : Builder) : Shape origin.source place events found → place ≠ .list →
    Ends after → 2 * events.length + 1 ≤ fuel → builder.events = events ++ after →
      Block.outlines place (builder.blocks origin fuel).1 = found ∧
        (builder.blocks origin fuel).2.events = after.tail
  items {events rest : List Located} {stop : Span} {found : List Outline}
      (number : Option Nat) (kind : Option ListKind) (builder : Builder) :
    Shape origin.source .list events found → 2 * events.length + 1 ≤ fuel →
      builder.events = events ++ (.leave, stop) :: rest →
        (items origin fuel number kind builder).1.getD (.bullet '-')
            = kind.getD (Source.listKind origin.source number (events.head?.map (·.2.start))) ∧
          Block.itemOutlines (items origin fuel number kind builder).2.2.1 = found ∧
            (items origin fuel number kind builder).2.2.2.events = rest

/-- A block was made of the front of the events, the others are left. -/
def Made (origin : Origin) (place : Place) (made : Option Block × Builder)
    (first found : List Outline) (bound : Nat) (after : List Located) : Prop :=
  madeOutline place made = first ∧ ∃ events, Shape origin.source place events found ∧
    events.length ≤ bound ∧ made.2.events = events ++ after

/-- The first of the events of a shape, of which a block is made. -/
inductive Front (origin : Origin) (fuel : Nat) (place : Place) (after : List Located) :
    List Located → List Outline → Prop where
  | nil : Front origin fuel place after [] []
  | made {event : Event} {span : Span} {events : List Located} {first found : List Outline}
      (bound : Nat) : event ≠ .leave → 2 * bound + 1 ≤ fuel →
        (∀ entered : Builder, entered.events = events ++ after →
          Made origin place (block origin fuel event span entered) first found bound after) →
        Front origin fuel place after ((event, span) :: events) (first ++ found)

def looseParagraph (read : List Inline × Builder) : Option Block × Builder :=
  (some (read.2.paragraph read.1), read.2)

theorem block_loose {fuel : Nat} {event : Event} {span : Span} {builder : Builder}
    (hinline : isInline event = true) :
    block origin (fuel + 1) event span builder =
      looseParagraph (looseInlines origin fuel (inline origin fuel event span [] builder).1
        (inline origin fuel event span [] builder).2) := by
  cases event with
  | enter tag => cases tag <;> first | rfl | simp [isInline] at hinline
  | _ => first | rfl | simp [isInline] at hinline

theorem front_inlined {fuel : Nat} {event : Event} {span : Span}
    {entered rest after : List Located} {found : List Outline}
    (hinlined : Inlined origin fuel event span (entered ++ after) (rest ++ after))
    (h : Shape origin.source .item rest found) (hends : Ends after)
    (hfuel : 2 * rest.length + 1 ≤ fuel) :
    Front origin (fuel + 1) .item after ((event, span) :: entered) found := by
  obtain ⟨hinline, hrest⟩ := hinlined
  refine @Front.made origin _ _ _ _ _ _ [] _ rest.length ?_ (by omega) fun builder hbuilder => ?_
  · rintro rfl
    cases hinline
  · obtain ⟨events', hshape, hlength, hread⟩ := leavesBlocks h hends hfuel
      (inline origin fuel event span [] builder).1 _ (hrest [] builder hbuilder)
    rw [block_loose hinline]
    exact ⟨rfl, events', hshape, hlength, hread⟩

/-- Of an event and what it enters, a block is made that has the outlines `first`. -/
def Blocked (origin : Origin) (fuel : Nat) (place : Place) (event : Event) (span : Span)
    (entered later : List Located) (first : List Outline) : Prop :=
  ∀ builder : Builder, builder.events = entered →
    madeOutline place (block origin fuel event span builder) = first ∧
      (block origin fuel event span builder).2.events = later

theorem front_blocked {fuel : Nat} {place : Place} {event : Event} {span : Span}
    {entered rest after : List Located} {first found : List Outline}
    (h : Blocked origin fuel place event span (entered ++ after) (rest ++ after) first)
    (hleave : event ≠ .leave) (hrest : Shape origin.source place rest found)
    (hfuel : 2 * rest.length + 1 ≤ fuel) :
    Front origin fuel place after ((event, span) :: entered) (first ++ found) :=
  .made rest.length hleave hfuel fun builder hbuilder =>
    ⟨(h builder hbuilder).1, rest, hrest, Nat.le_refl _, (h builder hbuilder).2⟩

theorem front_node {fuel : Nat} {place : Place} {tag : Source.Tag} {span stop : Span}
    {children rest after : List Located} {first found : List Outline}
    (h : Blocked origin fuel place (.enter tag) span
      (children ++ (.leave, stop) :: (rest ++ after)) (rest ++ after) first)
    (hrest : Shape origin.source place rest found) (hfuel : 2 * rest.length + 1 ≤ fuel) :
    Front origin fuel place after ((.enter tag, span) :: children ++ (.leave, stop) :: rest)
      (first ++ found) := by
  rw [List.cons_append]
  refine front_blocked ?_ (by simp) hrest hfuel
  rwa [List.append_assoc]

theorem blocked_paragraph {fuel : Nat} {place : Place} {span : Span} {children : List Located}
    (h : InlineShape children) (hfuel : 2 * children.length + 1 ≤ fuel) :
    Blocked origin (fuel + 1) place (.enter .paragraph) span (children ++ (.leave, stop) :: rest)
      rest place.paragraph :=
  fun builder hbuilder => ⟨List.append_nil _, events_inlines h hfuel [] builder hbuilder⟩

theorem blocked_heading {fuel : Nat} {place : Place} {level : Nat} {span : Span}
    {children : List Located} (h : InlineShape children)
    (hfuel : 2 * children.length + 1 ≤ fuel) :
    Blocked origin (fuel + 1) place (.enter (.heading level)) span
      (children ++ (.leave, stop) :: rest) rest [.heading level] :=
  fun builder hbuilder => ⟨rfl, events_inlines h hfuel [] builder hbuilder⟩

theorem blocked_rule (fuel : Nat) (place : Place) (span : Span) (rest : List Located) :
    Blocked origin (fuel + 1) place .rule span rest rest [.rule] :=
  fun _ hbuilder => ⟨rfl, hbuilder⟩

theorem blocked_literal {fuel : Nat} {place : Place} {tag : Source.Tag} {first : Outline}
    (span : Span) (pieces : List Source.LocatedPiece)
    (htag : Source.literalOutline? (Source.literalText pieces) tag = some first) :
    Blocked origin (fuel + 1) place (.enter tag) span
      (Source.SourceRead.pieceEvents pieces ++ (.leave, stop) :: rest) rest [first] := by
  intro builder hbuilder
  have hliteral :
      builder.literal = (Source.literalText pieces, { builder with events := rest }) := by
    rw [literal, hbuilder, literalFrom_pieceEvents]
  cases tag with
  | code info =>
      simp only [block, hliteral]
      cases htag
      cases info <;> exact ⟨rfl, trivial⟩
  | htmlBlock =>
      simp only [block, hliteral]
      cases htag
      exact ⟨rfl, trivial⟩
  | metadata =>
      simp only [block, hliteral]
      cases htag
      exact ⟨rfl, trivial⟩
  | _ => cases htag

theorem blocked_quote {fuel : Nat} (ih : Keeps origin fuel) {place : Place} {span : Span}
    {children : List Located} {inner : List Outline}
    (h : Shape origin.source .free children inner) (hfuel : 2 * children.length + 1 ≤ fuel) :
    Blocked origin (fuel + 1) place (.enter .quote) span (children ++ (.leave, stop) :: rest) rest
      [.quote inner] := by
  intro builder hbuilder
  obtain ⟨hinner, hleft⟩ := ih.blocks (builder.enter .quote) h (by decide) (.inr ⟨stop, _, rfl⟩)
    hfuel hbuilder
  refine ⟨?_, hleft⟩
  simpa [madeOutline, block, Block.outlines, Block.outline] using hinner

theorem blocked_list {fuel : Nat} (ih : Keeps origin fuel) {place : Place} {number : Option Nat}
    {span : Span} {children : List Located} {inner : List Outline}
    (h : Shape origin.source .list children inner) (hfuel : 2 * children.length + 1 ≤ fuel) :
    Blocked origin (fuel + 1) place (.enter (.list number)) span
      (children ++ (.leave, stop) :: rest) rest
      [.list (Source.listKind origin.source number (children.head?.map (·.2.start))) inner] := by
  intro builder hbuilder
  obtain ⟨hkind, hinner, hleft⟩ := ih.items number none builder h hfuel hbuilder
  refine ⟨?_, hleft⟩
  have hkind := hkind.trans Option.getD_none
  simp only [madeOutline, block, Option.toList_some, Block.outlines, Block.outline, hkind, hinner,
    List.append_nil]

theorem blocked_kept {fuel : Nat} {place : Place} {tag : Source.Tag} {span : Span}
    {children : List Located} {inner : List Outline} (htag : tag = .footnote ∨ tag = .table)
    (h : Shape origin.source .free children inner) :
    Blocked origin (fuel + 1) place (.enter tag) span (children ++ (.leave, stop) :: rest) rest
      [] := by
  intro builder hbuilder
  have hskip : builder.skip.events = rest := by
    rw [skip, hbuilder]
    exact (balanced_shape h).skip stop rest
  rcases htag with rfl | rfl <;> exact ⟨rfl, hskip⟩

/-- Where smaller fuels keep shapes, the first event is made into a block at this one. -/
theorem front_shape {fuel : Nat} (ih : ∀ smaller < fuel, Keeps origin smaller)
    {place : Place} {events after : List Located} {found : List Outline}
    (h : Shape origin.source place events found) (hplace : place ≠ .list) (hends : Ends after)
    (hfuel : 2 * events.length ≤ fuel) : Front origin fuel place after events found := by
  cases fuel with
  | zero =>
      obtain rfl : events = [] := List.eq_nil_of_length_eq_zero (by omega)
      cases h
      exact .nil
  | succ fuel =>
  cases h with
  | nil => exact .nil
  | atom atom span hrest =>
      simp only [List.length_cons] at hfuel
      exact front_inlined (inlined_atom (by omega) atom span _) hrest hends (by omega)
  | hardBreak span hrest =>
      simp only [List.length_cons] at hfuel
      exact front_inlined (inlined_hardBreak (by omega) span _) hrest hends (by omega)
  | group tag span stop hchildren hrest =>
      simp only [List.length_cons, List.length_append] at hfuel
      rw [List.cons_append]
      refine front_inlined ?_ hrest hends (by omega)
      rw [List.append_assoc]
      exact inlined_group hchildren (by omega) tag span stop _
  | paragraph span stop _ hchildren hrest =>
      simp only [List.length_cons, List.length_append] at hfuel
      exact front_node (blocked_paragraph hchildren (by omega)) hrest (by omega)
  | heading level span stop _ hchildren hrest =>
      simp only [List.length_cons, List.length_append] at hfuel
      exact front_node (blocked_heading hchildren (by omega)) hrest (by omega)
  | rule span _ hrest =>
      simp only [List.length_cons] at hfuel
      exact front_blocked (blocked_rule fuel place span _) (by simp) hrest (by omega)
  | literal tag span stop pieces _ htag hrest =>
      simp only [List.length_cons, List.length_append] at hfuel
      exact front_node (blocked_literal span pieces htag) hrest (by omega)
  | quote span stop _ hchildren hrest =>
      simp only [List.length_cons, List.length_append] at hfuel
      exact front_node (blocked_quote (ih fuel (by omega)) hchildren (by omega)) hrest (by omega)
  | list number span stop _ hchildren hrest =>
      simp only [List.length_cons, List.length_append] at hfuel
      exact front_node (blocked_list (ih fuel (by omega)) hchildren (by omega)) hrest (by omega)
  | kept tag span stop _ htag hchildren hrest =>
      simp only [List.length_cons, List.length_append] at hfuel
      exact front_node (blocked_kept htag hchildren) hrest (by omega)
  | item span stop hchildren hrest => exact absurd rfl hplace

theorem keeps_blocks {fuel : Nat} (ih : ∀ smaller < fuel + 1, Keeps origin smaller)
    {place : Place} {events after : List Located} {found : List Outline} (builder : Builder)
    (h : Shape origin.source place events found) (hplace : place ≠ .list) (hends : Ends after)
    (hfuel : 2 * events.length + 1 ≤ fuel + 1) (hevents : builder.events = events ++ after) :
    Block.outlines place (builder.blocks origin (fuel + 1)).1 = found ∧
      (builder.blocks origin (fuel + 1)).2.events = after.tail := by
  have hfront := front_shape (fun smaller hsmaller => ih smaller (by omega)) h hplace hends
    (Nat.le_of_succ_le_succ hfuel)
  cases hfront with
  | nil =>
      rw [List.nil_append] at hevents
      rcases hends with rfl | ⟨stop, rest, rfl⟩
      · simp [blocks, hevents, Block.outlines]
      · simp only [blocks, hevents]
        exact ⟨outlines_flush _ _ _, rfl⟩
  | made bound hleave hbound hmade =>
      obtain ⟨entered, hentered, houtlines, hbuilder⟩ :=
        @blocks_cons origin _ fuel _ _ hleave builder hevents place
      obtain ⟨hfirst, events', hshape, hlength, hmade⟩ := hmade entered hentered
      obtain ⟨hfound, hafter⟩ := (ih fuel (by omega)).blocks _ hshape hplace hends (by omega) hmade
      rw [houtlines, hbuilder, hfirst, hfound]
      exact ⟨rfl, hafter⟩

theorem keeps_items {fuel : Nat} (ih : ∀ smaller < fuel + 1, Keeps origin smaller)
    {events : List Located} {found : List Outline} (number : Option Nat)
    (kind : Option ListKind) (builder : Builder) (h : Shape origin.source .list events found)
    (hfuel : 2 * events.length + 1 ≤ fuel + 1)
    (hevents : builder.events = events ++ (.leave, stop) :: rest) :
    (items origin (fuel + 1) number kind builder).1.getD (.bullet '-')
        = kind.getD (Source.listKind origin.source number (events.head?.map (·.2.start))) ∧
      Block.itemOutlines (items origin (fuel + 1) number kind builder).2.2.1 = found ∧
        (items origin (fuel + 1) number kind builder).2.2.2.events = rest := by
  cases h with
  | nil =>
      rw [List.nil_append] at hevents
      simp only [items, hevents]
      exact ⟨rfl, rfl, trivial⟩
  | item span inner hchildren hrest =>
      rename_i children others first found
      simp only [List.length_cons, List.length_append] at hfuel
      simp only [List.cons_append, List.append_assoc] at hevents
      simp only [items, hevents, Block.itemOutlines]
      obtain ⟨hfirst, hleft⟩ := (ih fuel (by omega)).blocks
        (Builder.enter (.item (readItemMarker number (origin.source.drop span.start)).2)
          { builder with
            events := children ++ (.leave, inner) :: (others ++ (.leave, stop) :: rest) })
        hchildren (by decide) (.inr ⟨inner, _, rfl⟩) (by omega) rfl
      obtain ⟨hkind, hothers, hend⟩ := (ih fuel (by omega)).items number
        (some (kind.getD (readItemMarker number (origin.source.drop span.start)).1))
        (Builder.leave _) hrest (by omega) hleft
      rw [hfirst]
      exact ⟨hkind, congrArg (Outline.item first :: ·) hothers, hend⟩
  | _ => contradiction

theorem keeps (fuel : Nat) : Keeps origin fuel := by
  induction fuel using Nat.strongRecOn with
  | ind fuel ih =>
  cases fuel with
  | zero => exact ⟨fun _ _ _ _ h => absurd h (by omega), fun _ _ _ _ h => absurd h (by omega)⟩
  | succ fuel => exact ⟨keeps_blocks ih, keeps_items ih⟩

theorem front {fuel : Nat} {place : Place} {events after : List Located} {found : List Outline}
    (h : Shape origin.source place events found) (hplace : place ≠ .list) (hends : Ends after)
    (hfuel : 2 * events.length ≤ fuel) : Front origin fuel place after events found :=
  front_shape (fun smaller _ => keeps smaller) h hplace hends hfuel

end Builder

theorem Document.outline_ofEvents {origin : Origin} {events : List Located}
    {found : List Outline} (h : Shape origin.source .free events found) (definitions : List Span) :
    (Document.ofEvents origin events definitions).outline = found := by
  obtain ⟨hblocks, -⟩ := (@Builder.keeps origin (2 * events.length + 1)).blocks
    { events := events, definitions := definitions } h (by decide) (.inl rfl) (Nat.le_refl _)
    (by simp)
  have hleft (spans : List Span) (kept : Span → Text) :
      Block.outlines .free (spans.map fun span => Block.verbatim (.source (kept span))) = [] := by
    induction spans with
    | nil => rfl
    | cons span spans ih =>
        rw [List.map_cons, Block.outlines, ih]
        rfl
  rw [Document.outline, Document.ofEvents]
  simp only [Block.outlines_append, hblocks]
  rw [hleft, List.append_nil]

/-- A document has the outline of the blocks of its source. -/
theorem Document.outline_readFrom (extensions : Extensions) (origin : Origin) :
    (Document.readFrom extensions origin).outline =
      Source.BlockTree.outlines origin.source .free
        (Source.BlockReader.readSource extensions origin.source).blocks.reverse :=
  Document.outline_ofEvents (Source.SourceRead.shape_ofSource extensions origin.source) _

end Canonmark
