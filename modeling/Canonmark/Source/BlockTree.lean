import Canonmark.Source.Definition
import Canonmark.Source.Event
import Canonmark.Source.Token

/-!
# Trees of blocks

The blocks of a source with the tokens of their inline content. The reader takes one block at a
time, keeps the containers that are open, innermost first, and closes those that a line does not
continue.
-/

namespace Canonmark.Source

inductive LeafBlock where
  /-- The paragraphs of tight items stand for their content alone. -/
  | paragraph (tight : Bool) (tokens : List Token)
  | heading (level : Nat) (tokens : List Token)
  | code (info : Option Text) (pieces : List LocatedPiece)
  | html (pieces : List LocatedPiece)
  | metadata (pieces : List LocatedPiece)
  | rule
  | table
  /-- The check box of an item without text. -/
  | task (checked : Bool)
  deriving Inhabited, Repr

inductive BlockTree where
  | leaf (leaf : LeafBlock) (span : Span)
  | node (container : Container) (span : Span) (children : List BlockTree)
  deriving Inhabited, Repr

namespace BlockTree

def tightenLeaf : BlockTree → BlockTree
  | .leaf (.paragraph _ tokens) span => .leaf (.paragraph true tokens) span
  | tree => tree

/-- Takes the paragraphs directly in an item for their content. -/
def tighten : BlockTree → BlockTree
  | .node (.item indent) span children => .node (.item indent) span (children.map tightenLeaf)
  | tree => tree

end BlockTree

structure OpenContainer where
  container : Container
  start : Nat
  /-- Latest first. -/
  children : List BlockTree
  deriving Inhabited

structure BlockReader where
  extensions : Extensions
  position : Nat
  rest : Text
  /-- Innermost first. -/
  spine : List OpenContainer := []
  /-- Closed blocks outside of containers, latest first. -/
  blocks : List BlockTree := []
  /-- Where the first line of an item ends that holds nothing yet. -/
  emptyItem : Option Nat := none
  lastBlank : Bool := false
  /-- A check box that waits for the next paragraph. -/
  task : Option Token := none
  definitions : List Definition := []
  footnotes : List Text := []
  deriving Inhabited

namespace BlockReader

def containers (reader : BlockReader) : List Container :=
  (reader.spine.map (·.container)).reverse

def top? (reader : BlockReader) : Option Container :=
  reader.spine.head?.map (·.container)

def advance (n : Nat) (reader : BlockReader) : BlockReader :=
  { reader with position := reader.position + n, rest := reader.rest.drop n }

def append (tree : BlockTree) (reader : BlockReader) : BlockReader :=
  match reader.spine with
  | [] => { reader with blocks := tree :: reader.blocks }
  | innermost :: spine =>
      { reader with spine := { innermost with children := tree :: innermost.children } :: spine }

def push (container : Container) (start : Nat) (reader : BlockReader) : BlockReader :=
  { reader with spine := ⟨container, start, []⟩ :: reader.spine }

def close (stop : Nat) (reader : BlockReader) : BlockReader :=
  match reader.spine with
  | [] => reader
  | ⟨container, start, children⟩ :: spine =>
      let reader := { reader with spine := spine }
      match container with
      | .list true _ _ =>
          let items := (children.map BlockTree.tighten).reverse
          { reader with emptyItem := none }.append (.node container (.upTo start stop) items)
      | _ => reader.append (.node container (.upTo start stop) children.reverse)

def closeTo (depth stop : Nat) (reader : BlockReader) : BlockReader :=
  (List.range (reader.spine.length - depth)).foldl (fun reader _ => reader.close stop) reader

/-- An item that starts with an empty line ends with the next one. -/
def finishEmptyItem (reader : BlockReader) : BlockReader :=
  let reader :=
    match reader.emptyItem, reader.lastBlank, reader.top? with
    | some stop, true, some (.item _) => reader.close stop
    | _, _, _ => reader
  { reader with emptyItem := none }

def loosenParent (reader : BlockReader) : BlockReader :=
  match reader.spine with
  | inner :: ⟨.list _ marker number, start, children⟩ :: spine =>
      { reader with spine := inner :: ⟨.list false marker number, start, children⟩ :: spine }
  | _ => reader

/-- Closes a list that a block follows. A blank line before the block loosens the list around. -/
def finishList (stop : Nat) (reader : BlockReader) : BlockReader :=
  let reader := reader.finishEmptyItem
  let reader :=
    match reader.top? with
    | some (.list _ _ _) => reader.close stop
    | _ => reader
  if reader.lastBlank then { reader.loosenParent with lastBlank := false } else reader

/-- Continues the list that an item with this marker belongs to, or opens one. -/
def continueList (start : Nat) (marker : Char) (number : Nat) (reader : BlockReader) :
    BlockReader :=
  let reader := reader.finishEmptyItem
  let openList (reader : BlockReader) : BlockReader :=
    { reader.push (.list true marker number) start with lastBlank := false }
  match reader.spine with
  | [] => openList reader
  | ⟨.list tight other first, firstStart, children⟩ :: spine =>
      if other = marker then
        { reader with
          spine := ⟨.list (tight && !reader.lastBlank) other first, firstStart, children⟩ :: spine
          lastBlank := false }
      else openList (reader.finishList start)
  | _ => openList (reader.finishList start)

end BlockReader

end Canonmark.Source
