import Canonmark.Proofs.Document.Mirrored

/-!
# Tight lists

A list of well-nested events is taken for loose exactly when one of its items starts with a
paragraph. Paragraphs behind other blocks of an item do not count, so that a list whose items all
start with other blocks is tight in the document even where blank lines separate the blocks.
-/

namespace Canonmark

open Source (Event Located Tag)

namespace EventTree

def isParagraph : EventTree → Bool
  | node .paragraph _ _ _ => true
  | _ => false

def startsWithParagraph : EventTree → Bool
  | node .item _ _ children => children.head?.any isParagraph
  | _ => false

def holdsParagraph : EventTree → Bool
  | node .item _ _ children => children.any isParagraph
  | _ => false

mutual

/-- Whether the lists are tight that a tree becomes, outer ones before what lies in them. -/
def tightness : EventTree → List Bool
  | node tag _ _ children =>
      match tag with
      | .quote => tightnesses children
      | .list _ => (!children.any startsWithParagraph) :: itemTightnesses children
      | _ => []
  | leaf _ _ => []

def tightnesses : List EventTree → List Bool
  | [] => []
  | tree :: trees => tightness tree ++ tightnesses trees

def itemTightnesses : List EventTree → List Bool
  | [] => []
  | leaf _ _ :: items => itemTightnesses items
  | node _ _ _ children :: items => tightnesses children ++ itemTightnesses items

end

theorem tightness_of_isInline {tree : EventTree} (h : tree.isInline) : tightness tree = [] := by
  cases tree with
  | leaf event span => rfl
  | node tag span stop children => cases tag <;> first | rfl | cases h

theorem tightnesses_dropWhile (trees : List EventTree) :
    tightnesses (trees.dropWhile isInline) = tightnesses trees := by
  induction trees with
  | nil => rfl
  | cons tree trees ih =>
      by_cases hinline : tree.isInline
      · rw [List.dropWhile_cons_of_pos hinline, ih, tightnesses, tightness_of_isInline hinline,
          List.nil_append]
      · rw [List.dropWhile_cons_of_neg hinline]

theorem holdsParagraph_of_starts {item : EventTree} (h : item.startsWithParagraph) :
    item.holdsParagraph := by
  cases item with
  | leaf event span => exact h
  | node tag span stop children =>
      cases tag with
      | item =>
          cases children with
          | nil => exact h
          | cons first others => exact List.any_eq_true.mpr ⟨first, List.mem_cons_self, h⟩
      | _ => exact h

end EventTree

namespace Block

mutual

def tightness : Block → List Bool
  | .quote _ children => tightnesses children
  | .list _ tight items => tight :: itemTightnesses items
  | _ => []

def tightnesses : List Block → List Bool
  | [] => []
  | block :: blocks => tightness block ++ tightnesses blocks

def itemTightnesses : List (List Block) → List Bool
  | [] => []
  | item :: items => tightnesses item ++ itemTightnesses items

end

theorem tightnesses_eq (blocks : List Block) : tightnesses blocks = blocks.flatMap tightness := by
  induction blocks with
  | nil => rfl
  | cons block blocks ih => rw [tightnesses, ih, List.flatMap_cons]

@[simp] theorem tightnesses_append (first second : List Block) :
    tightnesses (first ++ second) = tightnesses first ++ tightnesses second := by
  simp only [tightnesses_eq, List.flatMap_append]

theorem tightnesses_definitions (origin : Origin) (enclosures : List Enclosure)
    (due : List Span) : tightnesses (due.map (Document.definition origin enclosures)) = [] := by
  simp [tightnesses_eq, Document.definition, tightness]

end Block

namespace Builder

open EventTree (flatten inside areWellNested areWellNested_cons startsWithParagraph)

variable {origin : Origin}

theorem startsParagraph_flatten (children : List EventTree) (stop : Span) (rest : List Located) :
    startsParagraph (flatten children ++ (.leave, stop) :: rest) =
      children.head?.any EventTree.isParagraph := by
  cases children with
  | nil => rfl
  | cons tree trees =>
      cases tree with
      | leaf event span =>
          obtain ⟨event, hleaf⟩ := event
          cases event with
          | enter tag => exact nomatch hleaf
          | leave => exact nomatch hleaf
          | _ => rfl
      | node tag span stop children => cases tag <;> rfl

def Tightened (trees : List EventTree) (made : Bool × List (List Block) × Builder) : Prop :=
  made.1 = !trees.any startsWithParagraph ∧
    Block.itemTightnesses made.2.1 = EventTree.itemTightnesses trees

mutual

theorem tightness_block (fuel : Nat) {tree : EventTree} (hinline : ¬ tree.isInline)
    (h : tree.isWellNested) (hfuel : 2 * (inside tree).length + 1 ≤ fuel) (builder : Builder)
    {rest : List Located} (hevents : builder.events = inside tree ++ rest) :
    Block.tightnesses (block origin fuel tree.event tree.span builder).1.toList =
      tree.tightness := by
  obtain ⟨fuel, rfl⟩ : ∃ n, fuel = n + 1 := ⟨fuel - 1, by omega⟩
  cases tree with
  | leaf event span =>
      obtain ⟨event, hleaf⟩ := event
      cases event with
      | enter tag => exact nomatch hleaf
      | leave => exact nomatch hleaf
      | rule => rfl
      | html => rfl
      | displayMath => rfl
      | _ => exact absurd rfl hinline
  | node tag span stop children =>
      simp only [inside, List.length_append, List.length_singleton] at hfuel
      simp only [inside, List.append_assoc, List.singleton_append] at hevents
      obtain ⟨hadmits, hnested⟩ := Bool.and_eq_true_iff.mp h
      cases tag with
      | quote =>
          have hinside := tightnesses_blocks fuel hnested (by omega) (builder.enter .quote)
            (.inr ⟨stop, rest, rfl⟩) hevents
          exact (List.append_nil _).trans hinside
      | list number =>
          obtain ⟨htight, hinside⟩ := tightened_items fuel number none hnested hadmits (by omega)
            builder hevents
          exact (List.append_nil _).trans (congrArg₂ List.cons htight hinside)
      | emphasis => exact absurd rfl hinline
      | strong => exact absurd rfl hinline
      | strike => exact absurd rfl hinline
      | link image form destination title => exact absurd rfl hinline
      | _ => rfl

theorem tightnesses_blocks (fuel : Nat) {trees : List EventTree} (h : areWellNested trees)
    (hfuel : 2 * (flatten trees).length + 1 ≤ fuel) (builder : Builder) {rest : List Located}
    (hends : Ends rest) (hevents : builder.events = flatten trees ++ rest) :
    Block.tightnesses (blocks origin fuel builder).1 = EventTree.tightnesses trees := by
  obtain ⟨fuel, rfl⟩ : ∃ n, fuel = n + 1 := ⟨fuel - 1, by omega⟩
  cases trees with
  | nil =>
      rw [blocks, hevents]
      rcases hends with rfl | ⟨stop, rest, rfl⟩
      · rfl
      · exact Block.tightnesses_definitions origin builder.enclosures _
  | cons tree trees =>
      obtain ⟨hfirst, hothers⟩ := areWellNested_cons.mp h
      simp only [flatten, List.length_cons, List.length_append] at hfuel
      simp only [flatten, List.cons_append, List.append_assoc] at hevents
      rw [blocks_event tree.event_ne_leave builder hevents]
      obtain ⟨due, later, -, hflush⟩ := @exists_due origin tree.span.start
        { builder with events := inside tree ++ (flatten trees ++ rest) }
      simp only [hflush, Block.tightnesses_append, Block.tightnesses_definitions, List.nil_append]
      let entered : Builder :=
        { builder with events := inside tree ++ (flatten trees ++ rest), definitions := later }
      by_cases hinline : tree.isInline
      · obtain ⟨fuel, rfl⟩ : ∃ n, fuel = n + 1 := ⟨fuel - 1, by omega⟩
        have hwhole : EndsWith origin tree := endsWith hfirst
        have hrun := hwhole.asRun (fuel + 1) entered trees rest hinline hends
          (by rw [List.length_append]; omega) rfl
        obtain ⟨hnested, hlength⟩ := EventTree.dropWhile_isInline hothers
        rw [tightnesses_blocks (fuel + 1) hnested (by omega) _ hends hrun.events,
          EventTree.tightnesses_dropWhile, EventTree.tightnesses,
          EventTree.tightness_of_isInline hinline, block_loose hinline]
        rfl
      · have hmade := @blockMade origin fuel tree hinline hfirst (by omega) entered _ rfl
        rw [tightness_block fuel hinline hfirst (by omega) entered rfl,
          tightnesses_blocks fuel hothers (by omega) _ hends hmade.events, EventTree.tightnesses]

theorem tightened_items (fuel : Nat) (number : Option Nat) (kind : Option ListKind)
    {trees : List EventTree} (h : areWellNested trees) (hitems : trees.all EventTree.isItem)
    (hfuel : 2 * (flatten trees).length + 1 ≤ fuel) (builder : Builder) {stop : Span}
    {rest : List Located} (hevents : builder.events = flatten trees ++ (.leave, stop) :: rest) :
    Tightened trees (items origin fuel number kind builder).2 := by
  obtain ⟨fuel, rfl⟩ : ∃ n, fuel = n + 1 := ⟨fuel - 1, by omega⟩
  cases trees with
  | nil =>
      rw [items, hevents]
      exact ⟨rfl, rfl⟩
  | cons tree trees =>
      obtain ⟨hfirst, hothers⟩ := areWellNested_cons.mp h
      obtain ⟨hitem, hitems⟩ := Bool.and_eq_true_iff.mp ((List.all_cons).symm.trans hitems)
      obtain ⟨span, last, children, rfl⟩ := EventTree.exists_item hitem
      simp only [flatten, inside, List.length_cons, List.length_append] at hfuel
      simp only [flatten, inside, List.cons_append, List.append_assoc, List.nil_append] at hevents
      obtain ⟨indent, kind', hmade⟩ := @exists_items origin fuel _ _ number kind builder hevents
      have hnested : areWellNested children = true := hfirst
      let entered : Builder := enter (.item indent)
        { builder with
          events := flatten children ++
            (.leave, last) :: (flatten trees ++ (.leave, stop) :: rest) }
      have hinside := @blocksMade origin fuel children hnested (by omega) entered _
        (.inr ⟨last, _, rfl⟩) rfl
      have hitem := @tightnesses_blocks fuel children hnested (by omega) entered _
        (.inr ⟨last, _, rfl⟩) rfl
      obtain ⟨htight, hrest⟩ := tightened_items fuel number kind' hothers hitems (by omega)
        (blocks origin fuel entered).2.leave hinside.events
      rw [hmade, startsParagraph_flatten]
      refine ⟨?_, congrArg₂ (· ++ ·) hitem hrest⟩
      rw [List.any_cons, Bool.not_or, ← htight]
      rfl

end

/--
A list is loose exactly when one of its items starts with a paragraph, and so only when one of
them holds a paragraph.
-/
theorem exists_list (fuel : Nat) {number : Option Nat} {span stop : Span}
    {children : List EventTree} (h : (EventTree.node (.list number) span stop
    children).isWellNested)
    (hfuel : 2 * (flatten children).length + 2 ≤ fuel) (builder : Builder) {rest : List Located}
    (hevents : builder.events = flatten children ++ (.leave, stop) :: rest) :
    ∃ kind tight items, (block origin fuel (.enter (.list number)) span builder).1 =
        some (.list kind tight items) ∧
      (tight = false ↔ ∃ item ∈ children, item.startsWithParagraph) ∧
      (tight = false → ∃ item ∈ children, item.holdsParagraph) := by
  obtain ⟨fuel, rfl⟩ : ∃ n, fuel = n + 1 := ⟨fuel - 1, by omega⟩
  obtain ⟨hitems, hnested⟩ := Bool.and_eq_true_iff.mp h
  have htight := (@tightened_items origin fuel number none children hnested hitems (by omega)
    builder _ _ hevents).1
  have hloose : (items origin fuel number none builder).2.1 = false ↔
      ∃ item ∈ children, item.startsWithParagraph := by
    rw [htight, Bool.not_eq_false', List.any_eq_true]
  refine ⟨_, _, _, rfl, hloose, fun h => ?_⟩
  obtain ⟨item, hitem, hstarts⟩ := hloose.mp h
  exact ⟨item, hitem, EventTree.holdsParagraph_of_starts hstarts⟩

end Builder

namespace Document

open EventTree (flatten areWellNested)

/-- The lists of a document are as tight as the trees of its events say, one by one. -/
theorem tightnesses_ofEvents (origin : Origin) (definitions : List Span) {trees : List EventTree}
    (h : areWellNested trees) :
    Block.tightnesses (ofEvents origin (flatten trees) definitions) =
      EventTree.tightnesses trees := by
  have hblocks := @Builder.tightnesses_blocks origin _ trees h (Nat.le_refl _)
    { events := flatten trees, definitions := definitions } [] (.inl rfl) (List.append_nil _).symm
  have hdue := Block.tightnesses_definitions origin []
    (Builder.blocks origin (2 * (flatten trees).length + 1)
      { events := flatten trees, definitions := definitions }).2.definitions
  rw [ofEvents]
  simp only [Builder.slice, Builder.enclosures_blocks, Block.tightnesses_append, hblocks]
  exact (congrArg _ hdue).trans (List.append_nil _)

theorem exists_tightnesses (extensions : Extensions) (origin : Origin) :
    ∃ trees, areWellNested trees ∧
      flatten trees = (Source.SourceRead.ofSource extensions origin.source).events ∧
        Block.tightnesses (readFrom extensions origin) = EventTree.tightnesses trees := by
  obtain ⟨trees, hnested, hevents, -⟩ :=
    EventTree.exists_trees (Source.SourceRead.shape_ofSource extensions origin.source)
  refine ⟨trees, hnested, hevents, ?_⟩
  rw [readFrom, ← hevents]
  exact tightnesses_ofEvents origin _ hnested

/-- A blank line separates the blocks of the item, but the first of them is no paragraph. -/
example : read { } "- > a\n\n  b".toList =
    [.list (.bullet '-') true
      [[.quote 1 [.paragraph [.leaf (.text ['a'])]], .paragraph [.leaf (.text ['b'])]]]] := by
  cbv

end Document

end Canonmark
