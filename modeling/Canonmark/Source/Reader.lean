import Canonmark.Source.BlockReader
import Canonmark.Source.Inline

/-!
# Reading sources

The events of a source, in document order, and the spans of its definitions, which are no
events.
-/

namespace Canonmark.Source

structure SourceRead where
  events : List Located
  /-- In the order of the source. -/
  definitions : List Span
  deriving Inhabited

namespace SourceRead

structure Shared where
  extensions : Extensions
  source : Text
  definitions : List Definition
  footnotes : List Text

def inlineEvents (shared : Shared) (containers : List Container) (budget : Nat)
    (span : Span) (tokens : List Token) : List Located × Nat :=
  let context : InlineContext :=
    { extensions := shared.extensions, containers := containers,
      definitions := shared.definitions, footnotes := shared.footnotes,
      text := span.slice shared.source, base := span.start }
  let (nodes, budget) := InlineNode.ofTokens context budget tokens
  (InlineNode.eventsOf nodes, budget)

def enclose (tag : Tag) (span : Span) (events : List Located) : List Located :=
  (.enter tag, span) :: events ++ [(.leave, span)]

def pieceEvents (pieces : List LocatedPiece) : List Located :=
  pieces.map fun (piece, span) => (piece.event, span)

def leafEvents (shared : Shared) (containers : List Container) (budget : Nat)
    (span : Span) : LeafBlock → List Located × Nat
  | .paragraph tight tokens =>
      let (events, budget) := inlineEvents shared containers budget span tokens
      (if tight then events else enclose .paragraph span events, budget)
  | .heading level tokens =>
      let (events, budget) := inlineEvents shared containers budget span tokens
      (enclose (.heading level) span events, budget)
  | .code info pieces => (enclose (.code info) span (pieceEvents pieces), budget)
  | .html pieces => (enclose .htmlBlock span (pieceEvents pieces), budget)
  | .metadata pieces => (enclose .metadata span (pieceEvents pieces), budget)
  | .rule => ([(.rule, span)], budget)
  | .table => (enclose .table span [], budget)
  | .task checked => ([(.task checked, span)], budget)

def tag : Container → Tag
  | .quote => .quote
  | .list _ marker number => .list (if isBullet marker then none else some number)
  | .item _ => .item
  | .footnote _ => .footnote

mutual

def treeEvents (shared : Shared) (containers : List Container) (budget : Nat) :
    BlockTree → List Located × Nat
  | .leaf leaf span => leafEvents shared containers budget span leaf
  | .node container span children =>
      let (events, budget) := treesEvents shared (containers ++ [container]) budget children
      (enclose (tag container) span events, budget)

def treesEvents (shared : Shared) (containers : List Container) (budget : Nat) :
    List BlockTree → List Located × Nat
  | [] => ([], budget)
  | tree :: rest =>
      let (events, budget) := treeEvents shared containers budget tree
      let (more, budget) := treesEvents shared containers budget rest
      (events ++ more, budget)

end

/-- Bytes that references may copy in a source of any size. -/
def minBudget : Nat := 100000

def ofSource (extensions : Extensions) (source : Text) : SourceRead :=
  let reader := BlockReader.readSource extensions source
  let shared : Shared := ⟨extensions, source, reader.definitions, reader.footnotes⟩
  let budget := max (Text.utf8Size source) minBudget
  ⟨(treesEvents shared [] budget reader.blocks.reverse).1, reader.definitions.map (·.span)⟩

end SourceRead

end Canonmark.Source
