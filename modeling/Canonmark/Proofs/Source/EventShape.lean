import Canonmark.Proofs.Source.Nesting
import Canonmark.Source.Reader

/-!
# Shapes of event sequences

The events of a source come from its trees: what is entered is left again, lists hold items and
nothing else, text that is in no paragraph stands in items, and only blocks of literal text hold
pieces of it. A shape lists the outlines of the blocks between the events.
-/

namespace Canonmark.Source

def LiteralPiece.content : LiteralPiece → Text
  | .text content => content
  | .html content => content

def literalText (pieces : List LocatedPiece) : Text := pieces.flatMap (·.1.content)

def literalOutline? (text : Text) : Tag → Option Outline
  | .code info => some (.code (info.map Unicode.trim) text)
  | .htmlBlock => some (.html text)
  | .metadata => some (.frontMatter text)
  | _ => none

def listKind (source : Text) (number : Option Nat) (start : Option Nat) : ListKind :=
  match start with
  | some start => (readItemMarker number (source.drop start)).1
  | none => .bullet '-'

def LeafBlock.outline (place : Place) : LeafBlock → List Outline
  | .paragraph _ _ => place.paragraph
  | .heading level _ => [.heading level]
  | .code info pieces => [.code (info.map Unicode.trim) (literalText pieces)]
  | .html pieces => [.html (literalText pieces)]
  | .metadata pieces => [.frontMatter (literalText pieces)]
  | .rule => [.rule]
  | .table => []
  | .task _ => []

namespace BlockTree

def span : BlockTree → Span
  | .leaf _ span => span
  | .node _ span _ => span

def listNumber (marker : Char) (number : Nat) : Option Nat :=
  if isBullet marker then none else some number

mutual

/-- The outline of a block of a source. Footnotes are kept as they are written. -/
def outline (source : Text) (place : Place) : BlockTree → List Outline
  | .leaf block _ => block.outline place
  | .node .quote _ children => [.quote (outlines source .free children)]
  | .node (.list _ marker number) _ children =>
      [.list (listKind source (listNumber marker number) (children.head?.map (·.span.start)))
        (outlines source .list children)]
  | .node (.item _) _ children => [.item (outlines source .item children)]
  | .node (.footnote _) _ _ => []

def outlines (source : Text) (place : Place) : List BlockTree → List Outline
  | [] => []
  | tree :: rest => outline source place tree ++ outlines source place rest

end

theorem outlines_eq (source : Text) (place : Place) (trees : List BlockTree) :
    outlines source place trees = trees.flatMap (outline source place) := by
  induction trees with
  | nil => rfl
  | cons tree rest ih => rw [outlines, ih, List.flatMap_cons]

@[simp] theorem outlines_append (source : Text) (place : Place) (first second : List BlockTree) :
    outlines source place (first ++ second) =
      outlines source place first ++ outlines source place second := by
  simp [outlines_eq]

end BlockTree

inductive InlineShape : List Located → Prop where
  | nil : InlineShape []
  | atom (atom : InlineAtom) (span : Span) {rest : List Located} :
      InlineShape rest → InlineShape ((atom.event, span) :: rest)
  | hardBreak (span : Span) {rest : List Located} :
      InlineShape rest → InlineShape ((.hardBreak, span) :: rest)
  | group (tag : InlineTag) (span stop : Span) {children rest : List Located} :
      InlineShape children → InlineShape rest →
        InlineShape ((.enter tag.tag, span) :: children ++ (.leave, stop) :: rest)

/-- Events of what stands in a place, and its outline. -/
inductive Shape (source : Text) : Place → List Located → List Outline → Prop where
  | nil (place : Place) : Shape source place [] []
  | atom (atom : InlineAtom) (span : Span) {rest : List Located} {found : List Outline} :
      Shape source .item rest found → Shape source .item ((atom.event, span) :: rest) found
  | hardBreak (span : Span) {rest : List Located} {found : List Outline} :
      Shape source .item rest found → Shape source .item ((.hardBreak, span) :: rest) found
  | group (tag : InlineTag) (span stop : Span) {children rest : List Located}
      {found : List Outline} : InlineShape children → Shape source .item rest found →
        Shape source .item ((.enter tag.tag, span) :: children ++ (.leave, stop) :: rest) found
  | paragraph (span stop : Span) {place : Place} {children rest : List Located}
      {found : List Outline} : place ≠ .list → InlineShape children →
        Shape source place rest found →
          Shape source place ((.enter .paragraph, span) :: children ++ (.leave, stop) :: rest)
            (place.paragraph ++ found)
  | heading (level : Nat) (span stop : Span) {place : Place} {children rest : List Located}
      {found : List Outline} : place ≠ .list → InlineShape children →
        Shape source place rest found →
          Shape source place
            ((.enter (.heading level), span) :: children ++ (.leave, stop) :: rest)
            (.heading level :: found)
  | rule (span : Span) {place : Place} {rest : List Located} {found : List Outline} :
      place ≠ .list → Shape source place rest found →
        Shape source place ((.rule, span) :: rest) (.rule :: found)
  | literal (tag : Tag) (span stop : Span) (pieces : List LocatedPiece) {place : Place}
      {rest : List Located} {first : Outline} {found : List Outline} : place ≠ .list →
        literalOutline? (literalText pieces) tag = some first → Shape source place rest found →
          Shape source place
            ((.enter tag, span) :: SourceRead.pieceEvents pieces ++ (.leave, stop) :: rest)
            (first :: found)
  | quote (span stop : Span) {place : Place} {children rest : List Located}
      {inner found : List Outline} : place ≠ .list → Shape source .free children inner →
        Shape source place rest found →
          Shape source place ((.enter .quote, span) :: children ++ (.leave, stop) :: rest)
            (.quote inner :: found)
  | list (number : Option Nat) (span stop : Span) {place : Place} {children rest : List Located}
      {inner found : List Outline} : place ≠ .list → Shape source .list children inner →
        Shape source place rest found →
          Shape source place ((.enter (.list number), span) :: children ++ (.leave, stop) :: rest)
            (.list (listKind source number (children.head?.map (·.2.start))) inner :: found)
  | item (span stop : Span) {children rest : List Located} {inner found : List Outline} :
      Shape source .item children inner → Shape source .list rest found →
        Shape source .list ((.enter .item, span) :: children ++ (.leave, stop) :: rest)
          (.item inner :: found)
  | kept (tag : Tag) (span stop : Span) {place : Place} {children rest : List Located}
      {inner found : List Outline} : place ≠ .list → tag = .footnote ∨ tag = .table →
        Shape source .free children inner → Shape source place rest found →
          Shape source place ((.enter tag, span) :: children ++ (.leave, stop) :: rest) found

variable {source : Text} {rest : List Located} {found : List Outline}

theorem InlineShape.shape {events : List Located} (h : InlineShape events)
    (hrest : Shape source .item rest found) : Shape source .item (events ++ rest) found := by
  induction h with
  | nil => exact hrest
  | atom atom span _ ih => exact .atom atom span ih
  | hardBreak span _ ih => exact .hardBreak span ih
  | group tag span stop hchildren _ _ ih =>
      rw [List.append_assoc]
      exact .group tag span stop hchildren ih

theorem InlineShape.append {first second : List Located} (h : InlineShape first)
    (h' : InlineShape second) : InlineShape (first ++ second) := by
  induction h with
  | nil => exact h'
  | atom atom span _ ih => exact .atom atom span ih
  | hardBreak span _ ih => exact .hardBreak span ih
  | group tag span stop hchildren _ _ ih =>
      rw [List.append_assoc]
      exact .group tag span stop hchildren ih

/-- The place of what stands in the containers that documents have. -/
def Tag.inside? : Tag → Option Place
  | .quote => some .free
  | .list _ => some .list
  | .item => some .item
  | _ => none

theorem Shape.container {place inside : Place} {tag : Tag} {span : Span} {events : List Located}
    {found : List Outline} (h : Shape source place ((.enter tag, span) :: events) found)
    (htag : tag.inside? = some inside) :
    ∃ children stop rest inner others, events = children ++ (.leave, stop) :: rest ∧
      Shape source inside children inner ∧ Shape source place rest others := by
  generalize hall : (Event.enter tag, span) :: events = all at h
  cases h with
  | quote _ stop _ hchildren hrest =>
      cases hall
      cases htag
      exact ⟨_, stop, _, _, _, rfl, hchildren, hrest⟩
  | list _ _ stop _ hchildren hrest =>
      cases hall
      cases htag
      exact ⟨_, stop, _, _, _, rfl, hchildren, hrest⟩
  | item _ stop hchildren hrest =>
      cases hall
      cases htag
      exact ⟨_, stop, _, _, _, rfl, hchildren, hrest⟩
  | atom atom => cases atom <;> cases hall
  | group inline =>
      cases hall
      cases inline <;> cases htag
  | literal _ _ _ _ _ hliteral =>
      cases hall
      cases tag <;> simp [Tag.inside?, literalOutline?] at htag hliteral
  | kept _ _ _ _ hkept =>
      cases hall
      rcases hkept with rfl | rfl <;> cases htag
  | _ =>
      cases hall
      try cases htag

mutual

theorem InlineNode.shape (node : InlineNode) : InlineShape node.events := by
  cases node with
  | atom content span => exact .atom content span .nil
  | run run span => exact .atom (.text []) span .nil
  | hardBreak backslash span => exact .hardBreak span .nil
  | group tag span children => exact .group tag span span (InlineNode.shapeOf children) .nil

theorem InlineNode.shapeOf (nodes : List InlineNode) : InlineShape (InlineNode.eventsOf nodes) := by
  cases nodes with
  | nil => exact .nil
  | cons node rest =>
      rw [InlineNode.eventsOf]
      exact (InlineNode.shape node).append (InlineNode.shapeOf rest)

end

namespace SourceRead

theorem shape_inlineEvents (shared : Shared) (containers : List Container) (budget : Nat)
    (span : Span) (tokens : List Token) :
    InlineShape (inlineEvents shared containers budget span tokens).1 :=
  InlineNode.shapeOf _

theorem enclose_append (tag : Tag) (span : Span) (events rest : List Located) :
    enclose tag span events ++ rest = (.enter tag, span) :: events ++ (.leave, span) :: rest := by
  simp [enclose]

theorem shape_leafEvents (shared : Shared) (containers : List Container) (budget : Nat)
    (span : Span) {block : LeafBlock} {place : Place} (hfits : block.Fits place)
    (hrest : Shape source place rest found) :
    Shape source place ((leafEvents shared containers budget span block).1 ++ rest)
      (block.outline place ++ found) := by
  have hplace := hfits.ne_list
  have hinline := shape_inlineEvents shared containers budget span
  have hliteral (tag : Tag) (pieces : List LocatedPiece) {first : Outline}
      (htag : literalOutline? (literalText pieces) tag = some first) :
      Shape source place (enclose tag span (pieceEvents pieces) ++ rest) (first :: found) :=
    enclose_append _ span _ rest ▸ Shape.literal tag span span pieces hplace htag hrest
  cases block with
  | paragraph tight tokens =>
      cases tight with
      | true =>
          cases hfits
          exact (hinline tokens).shape hrest
      | false =>
          exact enclose_append _ span _ rest ▸
            Shape.paragraph span span hplace (hinline tokens) hrest
  | heading level tokens =>
      exact enclose_append _ span _ rest ▸
        Shape.heading level span span hplace (hinline tokens) hrest
  | code info pieces => exact hliteral (.code info) pieces rfl
  | html pieces => exact hliteral .htmlBlock pieces rfl
  | metadata pieces => exact hliteral .metadata pieces rfl
  | rule => exact .rule span hplace hrest
  | table => exact .kept .table span span hplace (.inr rfl) (.nil .free) hrest
  | task checked =>
      cases hfits
      exact .atom (.task checked) span hrest

theorem head_treesEvents (shared : Shared) (containers : List Container) (budget : Nat)
    {trees : List BlockTree} (h : BlockTree.AllNested .list trees) :
    (treesEvents shared containers budget trees).1.head?.map (·.2.start)
      = trees.head?.map (·.span.start) := by
  cases trees with
  | nil => rfl
  | cons tree rest =>
      cases tree with
      | leaf block span => exact absurd rfl h.1.1.ne_list
      | node container span children => rfl

mutual

theorem shape_treeEvents (shared : Shared) (containers : List Container) (budget : Nat)
    (place : Place) (tree : BlockTree) (hfits : tree.Fits place) (h : tree.Nested)
    {rest : List Located} {found : List Outline} (hrest : Shape source place rest found) :
    Shape source place ((treeEvents shared containers budget tree).1 ++ rest)
      (tree.outline source place ++ found) := by
  cases tree with
  | leaf block span => exact shape_leafEvents shared containers budget span hfits hrest
  | node container span children =>
      have hchildren := shape_treesEvents shared (containers ++ [container]) budget
        container.place children h
      rw [treeEvents, enclose_append]
      cases container with
      | quote => exact .quote span span hfits hchildren hrest
      | list tight marker number =>
          have hshape := Shape.list (BlockTree.listNumber marker number) span span hfits hchildren
            hrest
          rw [head_treesEvents shared _ budget h] at hshape
          exact hshape
      | item indent =>
          cases hfits
          exact .item span span hchildren hrest
      | footnote label => exact .kept .footnote span span hfits (.inl rfl) hchildren hrest

/-- The events of trees have the shape of the trees, and the same outline. -/
theorem shape_treesEvents (shared : Shared) (containers : List Container) (budget : Nat)
    (place : Place) (trees : List BlockTree) (h : BlockTree.AllNested place trees) :
    Shape source place (treesEvents shared containers budget trees).1
      (BlockTree.outlines source place trees) := by
  cases trees with
  | nil => exact .nil place
  | cons tree rest =>
      obtain ⟨⟨hfits, htree⟩, hrest⟩ := h
      have hrest := shape_treesEvents shared containers
        (treeEvents shared containers budget tree).2 place rest hrest
      rw [treesEvents]
      exact shape_treeEvents shared containers budget place tree hfits htree hrest

end

theorem shape_ofSource (extensions : Extensions) (source : Text) :
    Shape source .free (ofSource extensions source).events
      (BlockTree.outlines source .free (BlockReader.readSource extensions source).blocks.reverse) :=
  shape_treesEvents _ [] _ .free _ (BlockReader.nested_readSource extensions source).1

end SourceRead

end Canonmark.Source
