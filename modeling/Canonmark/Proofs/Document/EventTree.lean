import Canonmark.Proofs.Document.Enclosures

/-!
# Well-nested events

Events are well nested where each node that is entered is left again, so that they are the events
of trees. Blocks of literal text hold no further nodes, and lists hold items and nothing else. The
events of every source are well nested.

What the builder does with a node that has been entered takes the events up to the one that leaves
it, and no more: it reads inline content, the text of a literal, or nothing at all.
-/

namespace Canonmark

open Source (Event Located Tag)

def Source.Event.isLeaf : Event → Bool
  | .enter _ => false
  | .leave => false
  | _ => true

inductive EventTree where
  | leaf (event : { event : Event // event.isLeaf }) (span : Span)
  | node (tag : Tag) (span stop : Span) (children : List EventTree)

namespace EventTree

def event : EventTree → Event
  | leaf event _ => event
  | node tag _ _ _ => .enter tag

def span : EventTree → Span
  | leaf _ span => span
  | node _ span _ _ => span

mutual

def inside : EventTree → List Located
  | leaf _ _ => []
  | node _ _ stop children => flatten children ++ [(.leave, stop)]

def flatten : List EventTree → List Located
  | [] => []
  | tree :: trees => (tree.event, tree.span) :: (inside tree ++ flatten trees)

end

def isLeaf : EventTree → Bool
  | leaf _ _ => true
  | node _ _ _ _ => false

def isItem : EventTree → Bool
  | node .item _ _ _ => true
  | _ => false

def admits : Tag → List EventTree → Bool
  | .code _, trees => trees.all isLeaf
  | .htmlBlock, trees => trees.all isLeaf
  | .metadata, trees => trees.all isLeaf
  | .list _, trees => trees.all isItem
  | _, _ => true

mutual

def isWellNested : EventTree → Bool
  | leaf _ _ => true
  | node tag _ _ children => admits tag children && areWellNested children

def areWellNested : List EventTree → Bool
  | [] => true
  | tree :: trees => isWellNested tree && areWellNested trees

end

def isInline (tree : EventTree) : Bool := Builder.isInline tree.event

theorem event_ne_leave (tree : EventTree) : tree.event ≠ .leave := by
  cases tree with
  | leaf event span =>
      intro h
      exact absurd (h ▸ event.2 : Event.isLeaf .leave = true) (by decide)
  | node tag span stop children => exact fun h => nomatch h

theorem exists_item {tree : EventTree} (h : tree.isItem) :
    ∃ span stop children, tree = node .item span stop children := by
  cases tree with
  | leaf event span => exact nomatch h
  | node tag span stop children =>
      cases tag with
      | item => exact ⟨span, stop, children, rfl⟩
      | _ => exact nomatch h

theorem areWellNested_cons {tree : EventTree} {trees : List EventTree} :
    areWellNested (tree :: trees) ↔ tree.isWellNested ∧ areWellNested trees := by
  rw [areWellNested, Bool.and_eq_true]

theorem dropWhile_isInline {trees : List EventTree} (h : areWellNested trees) :
    areWellNested (trees.dropWhile isInline) ∧
      (flatten (trees.dropWhile isInline)).length ≤ (flatten trees).length := by
  induction trees with
  | nil => exact ⟨rfl, Nat.le_refl _⟩
  | cons tree trees ih =>
      obtain ⟨hnested, hlength⟩ := ih (areWellNested_cons.mp h).2
      by_cases hinline : tree.isInline
      · rw [List.dropWhile_cons_of_pos hinline]
        refine ⟨hnested, Nat.le_trans hlength ?_⟩
        simp only [flatten, List.length_cons, List.length_append]
        omega
      · rw [List.dropWhile_cons_of_neg hinline]
        exact ⟨h, Nat.le_refl _⟩

theorem flatten_node (tag : Tag) (span stop : Span) (children trees : List EventTree) :
    flatten (node tag span stop children :: trees) =
      (.enter tag, span) :: flatten children ++ (.leave, stop) :: flatten trees := by
  simp [flatten, inside, event, EventTree.span]

theorem isWellNested_node {tag : Tag} {span stop : Span} {children : List EventTree}
    (hadmits : admits tag children) (h : areWellNested children) :
    (node tag span stop children).isWellNested :=
  Bool.and_eq_true_iff.mpr ⟨hadmits, h⟩

theorem exists_node {tag : Tag} {span stop : Span} {children : List EventTree}
    {events : List Located} {place : Place} (hadmits : admits tag children)
    (hinner : areWellNested children)
    (h : ∃ trees, areWellNested trees ∧ flatten trees = events ∧
      (place = .list → trees.all isItem))
    (hplace : place ≠ .list) :
    ∃ trees, areWellNested trees ∧
      flatten trees = (.enter tag, span) :: flatten children ++ (.leave, stop) :: events ∧
        (place = .list → trees.all isItem) := by
  obtain ⟨trees, hnested, rfl, -⟩ := h
  exact ⟨node tag span stop children :: trees,
    areWellNested_cons.mpr ⟨isWellNested_node hadmits hinner, hnested⟩, flatten_node _ _ _ _ _,
    fun hlist => absurd hlist hplace⟩

theorem isLeaf_atom (atom : Source.InlineAtom) : atom.event.isLeaf := by cases atom <;> rfl

theorem exists_inlineTrees {events : List Located} (h : Source.InlineShape events) :
    ∃ trees, areWellNested trees ∧ flatten trees = events := by
  induction h with
  | nil => exact ⟨[], rfl, rfl⟩
  | atom atom span _ ih =>
      obtain ⟨trees, hnested, rfl⟩ := ih
      exact ⟨leaf ⟨atom.event, isLeaf_atom atom⟩ span :: trees, hnested, rfl⟩
  | hardBreak span _ ih =>
      obtain ⟨trees, hnested, rfl⟩ := ih
      exact ⟨leaf ⟨.hardBreak, rfl⟩ span :: trees, hnested, rfl⟩
  | group tag span stop _ _ ihChildren ih =>
      obtain ⟨children, hchildren, rfl⟩ := ihChildren
      obtain ⟨trees, hnested, rfl⟩ := ih
      refine ⟨node tag.tag span stop children :: trees, ?_, flatten_node _ _ _ _ _⟩
      exact areWellNested_cons.mpr ⟨isWellNested_node (by cases tag <;> rfl) hchildren, hnested⟩

def ofPiece (piece : Source.LocatedPiece) : EventTree :=
  match piece with
  | (.text text, span) => leaf ⟨.text text, rfl⟩ span
  | (.html text, span) => leaf ⟨.html text, rfl⟩ span

theorem flatten_ofPiece (pieces : List Source.LocatedPiece) :
    flatten (pieces.map ofPiece) = Source.SourceRead.pieceEvents pieces := by
  induction pieces with
  | nil => rfl
  | cons piece pieces ih =>
      obtain ⟨piece, span⟩ := piece
      cases piece <;> exact congrArg (_ :: ·) ih

theorem all_ofPiece (pieces : List Source.LocatedPiece) :
    (pieces.map ofPiece).all isLeaf ∧ areWellNested (pieces.map ofPiece) := by
  induction pieces with
  | nil => exact ⟨rfl, rfl⟩
  | cons piece pieces ih =>
      obtain ⟨piece, span⟩ := piece
      cases piece <;> exact ih

theorem exists_trees {source : Text} {place : Place} {events : List Located}
    {found : List Outline} (h : Source.Shape source place events found) :
    ∃ trees, areWellNested trees ∧ flatten trees = events ∧
      (place = .list → trees.all isItem) := by
  induction h with
  | nil => exact ⟨[], rfl, rfl, fun _ => rfl⟩
  | atom atom span _ ih =>
      obtain ⟨trees, hnested, rfl, -⟩ := ih
      exact ⟨leaf ⟨atom.event, isLeaf_atom atom⟩ span :: trees, hnested, rfl, nofun⟩
  | hardBreak span _ ih =>
      obtain ⟨trees, hnested, rfl, -⟩ := ih
      exact ⟨leaf ⟨.hardBreak, rfl⟩ span :: trees, hnested, rfl, nofun⟩
  | rule span hplace _ ih =>
      obtain ⟨trees, hnested, rfl, -⟩ := ih
      exact ⟨leaf ⟨.rule, rfl⟩ span :: trees, hnested, rfl, fun hlist => absurd hlist hplace⟩
  | group tag span stop hchildren _ ih =>
      obtain ⟨children, hinner, rfl⟩ := exists_inlineTrees hchildren
      exact exists_node (by cases tag <;> rfl) hinner ih nofun
  | paragraph span stop hplace hchildren _ ih =>
      obtain ⟨children, hinner, rfl⟩ := exists_inlineTrees hchildren
      exact exists_node rfl hinner ih hplace
  | heading level span stop hplace hchildren _ ih =>
      obtain ⟨children, hinner, rfl⟩ := exists_inlineTrees hchildren
      exact exists_node rfl hinner ih hplace
  | literal tag span stop pieces hplace htag _ ih =>
      obtain ⟨hleaves, hinner⟩ := all_ofPiece pieces
      rw [← flatten_ofPiece]
      exact exists_node (by cases tag <;> first | exact hleaves | cases htag) hinner ih hplace
  | quote span stop hplace _ _ ihChildren ih =>
      obtain ⟨children, hinner, rfl, -⟩ := ihChildren
      exact exists_node rfl hinner ih hplace
  | list number span stop hplace _ _ ihChildren ih =>
      obtain ⟨children, hinner, rfl, hitems⟩ := ihChildren
      exact exists_node (hitems rfl) hinner ih hplace
  | item span stop _ _ ihChildren ih =>
      obtain ⟨children, hinner, rfl, -⟩ := ihChildren
      obtain ⟨trees, hnested, rfl, hitems⟩ := ih
      exact ⟨node .item span stop children :: trees,
        areWellNested_cons.mpr ⟨isWellNested_node rfl hinner, hnested⟩, flatten_node _ _ _ _ _,
        fun _ => hitems rfl⟩
  | kept tag span stop hplace htag _ _ ihChildren ih =>
      obtain ⟨children, hinner, rfl, -⟩ := ihChildren
      exact exists_node (by rcases htag with rfl | rfl <;> rfl) hinner ih hplace

end EventTree

namespace Builder

open EventTree (flatten inside areWellNested)

variable {origin : Origin}

theorem skipFrom_leaf {event : Event} (h : event.isLeaf) (depth : Nat) (span : Span)
    (rest : List Located) : skipFrom depth ((event, span) :: rest) = skipFrom depth rest := by
  cases event with
  | enter tag => exact nomatch h
  | leave => exact nomatch h
  | _ => cases depth <;> rfl

theorem balanced_flatten : (trees : List EventTree) → Balanced (flatten trees)
  | [] => fun _ _ => rfl
  | .leaf event span :: trees => fun depth rest =>
      (skipFrom_leaf event.2 depth span _).trans (balanced_flatten trees depth rest)
  | .node tag span stop children :: trees => by
      rw [EventTree.flatten_node]
      exact (balanced_flatten children).enclosed (balanced_flatten trees)

theorem events_skip {children : List EventTree} {stop : Span} {rest : List Located}
    {builder : Builder}
    (h : builder.events = flatten children ++ (.leave, stop) :: rest) :
    builder.skip.events = rest := by
  rw [skip, h]
  exact (balanced_flatten children).skip stop rest

theorem snd_literalFrom_leaf {event : Event} (h : event.isLeaf) (span : Span)
    (rest : List Located) : (literalFrom ((event, span) :: rest)).2 = (literalFrom rest).2 := by
  cases event with
  | enter tag => exact nomatch h
  | leave => exact nomatch h
  | _ => rfl

theorem events_literal {children : List EventTree} (hleaves : children.all EventTree.isLeaf)
    {stop : Span} {rest : List Located} {builder : Builder}
    (h : builder.events = flatten children ++ (.leave, stop) :: rest) :
    builder.literal.2.events = rest := by
  have hliteral : (literalFrom (flatten children ++ (.leave, stop) :: rest)).2 = rest := by
    clear h
    induction children with
    | nil => rfl
    | cons tree trees ih =>
        rw [List.all_cons, Bool.and_eq_true] at hleaves
        cases tree with
        | leaf event span => exact (snd_literalFrom_leaf event.2 span _).trans (ih hleaves.2)
        | node tag span stop children => exact nomatch hleaves.1
  rw [← h] at hliteral
  exact hliteral

mutual

/-- In inline content, a tree is taken with the node that it enters, whatever that node holds. -/
theorem events_inline_tree (fuel : Nat) (tree : EventTree)
    (hfuel : 2 * (inside tree).length + 1 ≤ fuel) (content : List Inline) (builder : Builder)
    {rest : List Located} (h : builder.events = inside tree ++ rest) :
    (inline origin fuel tree.event tree.span content builder).2.events = rest := by
  obtain ⟨fuel, rfl⟩ : ∃ n, fuel = n + 1 := ⟨fuel - 1, by omega⟩
  cases tree with
  | leaf event span =>
      obtain ⟨event, hleaf⟩ := event
      cases event with
      | enter tag => exact nomatch hleaf
      | leave => exact nomatch hleaf
      | text text => exact (events_pushText span content builder).trans h
      | _ => exact h
  | node tag span stop children =>
      simp only [inside, List.length_append, List.length_singleton] at hfuel
      simp only [inside, List.append_assoc, List.singleton_append] at h
      have hskip := events_skip h
      have hchildren := events_inlines_trees fuel children (by omega) [] builder h
      cases tag with
      | emphasis => exact hchildren
      | strong => exact hchildren
      | strike => exact hchildren
      | link image form destination title =>
          cases form with
          | direct => exact hchildren
          | _ => cases image <;> exact hskip
      | _ => exact hskip

theorem events_inlines_trees (fuel : Nat) (trees : List EventTree)
    (hfuel : 2 * (flatten trees).length + 1 ≤ fuel) (content : List Inline) (builder : Builder)
    {stop : Span} {rest : List Located}
    (h : builder.events = flatten trees ++ (.leave, stop) :: rest) :
    (inlines origin fuel content builder).2.events = rest := by
  obtain ⟨fuel, rfl⟩ : ∃ n, fuel = n + 1 := ⟨fuel - 1, by omega⟩
  cases trees with
  | nil =>
      rw [inlines, h]
      rfl
  | cons tree trees =>
      simp only [flatten, List.length_cons, List.length_append] at hfuel
      simp only [flatten, List.cons_append, List.append_assoc] at h
      rw [inlines_cons tree.event_ne_leave content builder h]
      exact events_inlines_trees fuel trees (by omega) _ _
        (events_inline_tree fuel tree (by omega) content _ rfl)

end

theorem events_looseInlines_trees (fuel : Nat) (trees : List EventTree)
    (hfuel : 2 * (flatten trees).length + 1 ≤ fuel) (content : List Inline) (builder : Builder)
    {rest : List Located} (hends : Ends rest) (h : builder.events = flatten trees ++ rest) :
    (looseInlines origin fuel content builder).2.events =
      flatten (trees.dropWhile EventTree.isInline) ++ rest := by
  induction fuel generalizing trees content builder with
  | zero => exact absurd hfuel (by omega)
  | succ fuel ih =>
      cases trees with
      | nil =>
          rw [looseInlines, h]
          rcases hends with rfl | ⟨stop, rest, rfl⟩ <;> exact h
      | cons tree trees =>
          simp only [flatten, List.length_cons, List.length_append] at hfuel
          rw [looseInlines, h]
          simp only [flatten, List.cons_append]
          by_cases hinline : isInline tree.event
          · have hrun : tree.isInline := hinline
            rw [if_pos hinline, List.dropWhile_cons_of_pos hrun, List.append_assoc]
            exact ih trees (by omega) _ _ (events_inline_tree fuel tree (by omega) content _ rfl)
          · have hrun : ¬ tree.isInline := hinline
            rw [if_neg hinline, List.dropWhile_cons_of_neg hrun]
            exact h

end Builder

end Canonmark
