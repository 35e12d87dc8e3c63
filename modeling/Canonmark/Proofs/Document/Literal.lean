import Canonmark.Proofs.Document.Built

/-!
# Literal text of a document

The outline of a document tells the literal text of its blocks: the document of a source holds
the literal text of the source, but for that of footnotes.
-/

namespace Canonmark

open Source (LiteralKind)

namespace Outline

mutual

def literals : Outline → List (LiteralKind × Text)
  | .code _ text => [(.code, text)]
  | .html text => [(.html, text)]
  | .frontMatter text => [(.frontMatter, text)]
  | .quote children => allLiterals children
  | .list _ items => allLiterals items
  | .item children => allLiterals children
  | _ => []

def allLiterals : List Outline → List (LiteralKind × Text)
  | [] => []
  | outline :: rest => literals outline ++ allLiterals rest

end

@[simp] theorem allLiterals_append (first second : List Outline) :
    allLiterals (first ++ second) = allLiterals first ++ allLiterals second := by
  induction first with
  | nil => rfl
  | cons outline rest ih => rw [List.cons_append, allLiterals, allLiterals, ih, List.append_assoc]

@[simp] theorem allLiterals_paragraph (place : Place) : allLiterals place.paragraph = [] := by
  cases place with
  | item => rfl
  | _ => rfl

end Outline

def Verbatim.literals : Verbatim → List (LiteralKind × Text)
  | .code _ _ text => [(.code, text)]
  | .html text => [(.html, text)]
  | .frontMatter text => [(.frontMatter, text)]
  | _ => []

namespace Block

mutual

def literals : Block → List (LiteralKind × Text)
  | .quote _ children => allLiterals children
  | .list _ _ items => itemLiterals items
  | .verbatim content => content.literals
  | _ => []

def allLiterals : List Block → List (LiteralKind × Text)
  | [] => []
  | block :: rest => literals block ++ allLiterals rest

def itemLiterals : List (List Block) → List (LiteralKind × Text)
  | [] => []
  | item :: rest => allLiterals item ++ itemLiterals rest

end

mutual

theorem literals_outline (place : Place) (block : Block) :
    Outline.allLiterals (block.outline place) = block.literals := by
  cases block with
  | paragraph content => exact Outline.allLiterals_paragraph place
  | heading level content => rfl
  | quote depth children =>
      simpa [outline, Outline.allLiterals, Outline.literals, literals]
        using literals_outlines .free children
  | list kind tight items =>
      simpa [outline, Outline.allLiterals, Outline.literals, literals]
        using literals_itemOutlines items
  | verbatim content => cases content with
    | _ => rfl

theorem literals_outlines (place : Place) (blocks : List Block) :
    Outline.allLiterals (outlines place blocks) = allLiterals blocks := by
  cases blocks with
  | nil => rfl
  | cons block rest =>
      rw [outlines, Outline.allLiterals_append, literals_outline, literals_outlines, allLiterals]

theorem literals_itemOutlines (items : List (List Block)) :
    Outline.allLiterals (itemOutlines items) = itemLiterals items := by
  cases items with
  | nil => rfl
  | cons item rest =>
      rw [itemOutlines, Outline.allLiterals, Outline.literals, literals_outlines,
        literals_itemOutlines, itemLiterals]

end

end Block

def Document.literals (document : Document) : List (LiteralKind × Text) :=
  Block.allLiterals document

namespace Source

/-- What a document holds of a literal: nothing if it is kept as it is written. -/
def readContent? (content : LiteralKind × Bool × List LiteralPiece) : Option (LiteralKind × Text) :=
  if content.2.1 then none else some (content.1, content.2.2.flatMap LiteralPiece.content)

def readLiterals (literals : List Literal) : List (LiteralKind × Text) :=
  (literals.map Literal.content).filterMap readContent?

@[simp] theorem readLiterals_append (first second : List Literal) :
    readLiterals (first ++ second) = readLiterals first ++ readLiterals second := by
  simp [readLiterals]

theorem readLiterals_single (kind : LiteralKind) (pieces : List LocatedPiece) :
    readLiterals [⟨kind, false, pieces⟩] = [(kind, literalText pieces)] := by
  simp [readLiterals, readContent?, Literal.content, literalText, List.flatMap_map]

mutual

theorem literals_inFootnote (tree : BlockTree) :
    readLiterals (tree.literals true) = [] := by
  cases tree with
  | leaf block span => cases block <;> rfl
  | node container span children =>
      rw [BlockTree.literals, Bool.true_or]
      exact allLiterals_inFootnote children

theorem allLiterals_inFootnote (trees : List BlockTree) :
    readLiterals (BlockTree.allLiterals true trees) = [] := by
  cases trees with
  | nil => rfl
  | cons tree rest =>
      rw [BlockTree.allLiterals, readLiterals_append, literals_inFootnote tree,
        allLiterals_inFootnote rest, List.append_nil]

end

theorem LeafBlock.literals_outline (place : Place) (block : LeafBlock) :
    Outline.allLiterals (block.outline place) = readLiterals (block.literals false) := by
  cases block with
  | paragraph tight tokens => exact Outline.allLiterals_paragraph place
  | code info pieces => exact (readLiterals_single .code pieces).symm
  | html pieces => exact (readLiterals_single .html pieces).symm
  | metadata pieces => exact (readLiterals_single .frontMatter pieces).symm
  | _ => rfl

namespace BlockTree

mutual

theorem literals_outline (source : Text) (place : Place) (tree : BlockTree) :
    Outline.allLiterals (tree.outline source place) = readLiterals (tree.literals false) := by
  cases tree with
  | leaf block span => exact block.literals_outline place
  | node container span children =>
      cases container with
      | footnote label => exact (allLiterals_inFootnote children).symm
      | quote =>
          simpa [outline, Outline.allLiterals, Outline.literals, literals, Container.isFootnote]
            using literals_outlines source .free children
      | list tight marker number =>
          simpa [outline, Outline.allLiterals, Outline.literals, literals, Container.isFootnote]
            using literals_outlines source .list children
      | item indent =>
          simpa [outline, Outline.allLiterals, Outline.literals, literals, Container.isFootnote]
            using literals_outlines source .item children

theorem literals_outlines (source : Text) (place : Place) (trees : List BlockTree) :
    Outline.allLiterals (outlines source place trees) =
      readLiterals (allLiterals false trees) := by
  cases trees with
  | nil => rfl
  | cons tree rest =>
      rw [outlines, Outline.allLiterals_append, literals_outline, literals_outlines, allLiterals,
        readLiterals_append]

end

end BlockTree

end Source

/-- A document holds the literal text of the blocks of its source, footnotes aside. -/
theorem Document.literals_readFrom (extensions : Extensions) (origin : Origin) :
    (Document.readFrom extensions origin).literals =
      Source.readLiterals (Source.BlockReader.readSource extensions origin.source).literals := by
  obtain ⟨-, hspine⟩ := Source.BlockReader.nested_readSource extensions origin.source
  have hliterals : (Source.BlockReader.readSource extensions origin.source).literals =
      Source.BlockTree.allLiterals false
        (Source.BlockReader.readSource extensions origin.source).blocks.reverse := by
    rw [Source.BlockReader.literals, hspine, Source.BlockReader.spineLiterals]
  rw [Document.literals, ← Block.literals_outlines .free, ← Document.outline,
    Document.outline_readFrom, Source.BlockTree.literals_outlines, hliterals]

end Canonmark
