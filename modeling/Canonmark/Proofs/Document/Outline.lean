import Canonmark.Document.Builder

/-!
# Outlines

An outline tells which blocks stand where, with the literal text of those that have any, and
leaves out inline content. Paragraphs of items are left out: whether they are paragraphs or
text alone depends on the blank lines between the items. So are blocks that are kept as they are
written.
-/

namespace Canonmark

inductive Outline where
  | paragraph
  | heading (level : Nat)
  | code (info : Option Text) (text : Text)
  | html (text : Text)
  | frontMatter (text : Text)
  | rule
  | quote (children : List Outline)
  | list (kind : ListKind) (items : List Outline)
  | item (children : List Outline)
  deriving Inhabited, Repr

/-- What blocks stand in, as far as it decides which blocks they may be. -/
inductive Place where
  | free
  | list
  | item
  deriving DecidableEq

namespace Place

def paragraph (place : Place) : List Outline := if place = .item then [] else [.paragraph]

end Place

def Verbatim.outline : Verbatim → List Outline
  | .code fence info text => [.code (fence.map fun _ => info) text]
  | .html text => [.html text]
  | .rule _ => [.rule]
  | .frontMatter text => [.frontMatter text]
  | .source _ => []

namespace Block

mutual

def outline (place : Place) : Block → List Outline
  | .paragraph _ => place.paragraph
  | .heading level _ => [.heading level]
  | .quote _ children => [.quote (outlines .free children)]
  | .list kind _ items => [.list kind (itemOutlines items)]
  | .verbatim content => content.outline

def outlines (place : Place) : List Block → List Outline
  | [] => []
  | block :: rest => outline place block ++ outlines place rest

def itemOutlines : List (List Block) → List Outline
  | [] => []
  | item :: rest => .item (outlines .item item) :: itemOutlines rest

end

@[simp] theorem outlines_append (place : Place) (first second : List Block) :
    outlines place (first ++ second) = outlines place first ++ outlines place second := by
  induction first with
  | nil => rfl
  | cons block rest ih => rw [List.cons_append, outlines, outlines, ih, List.append_assoc]

end Block

/-- Which blocks a document has, and how they are nested. -/
def Document.outline (document : Document) : List Outline := Block.outlines .free document

end Canonmark
