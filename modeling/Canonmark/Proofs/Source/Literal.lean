import Canonmark.Proofs.Source.Picked

/-!
# Literal text of a source

Code, HTML and metadata in the order of the source. What a reader of blocks has found stays, in
this order, whatever containers are closed around it.
-/

namespace Canonmark.Source

inductive LiteralKind where
  | code
  | html
  | frontMatter
  deriving DecidableEq, Inhabited, Repr

structure Literal where
  kind : LiteralKind
  /-- Footnotes are kept as they are written, and so is the literal text in them. -/
  inFootnote : Bool
  pieces : List LocatedPiece
  deriving DecidableEq, Inhabited, Repr

/-- What is left of a literal when its places in the source are forgotten. -/
def Literal.content (literal : Literal) : LiteralKind × Bool × List LiteralPiece :=
  (literal.kind, literal.inFootnote, literal.pieces.map Prod.fst)

def LeafBlock.literals (inFootnote : Bool) : LeafBlock → List Literal
  | .code _ pieces => [⟨.code, inFootnote, pieces⟩]
  | .html pieces => [⟨.html, inFootnote, pieces⟩]
  | .metadata pieces => [⟨.frontMatter, inFootnote, pieces⟩]
  | _ => []

def literalPick : Pick Literal where
  pick inFootnote block _ := block.literals inFootnote
  paragraph _ _ _ _ := rfl
  task _ _ _ := rfl

namespace BlockTree

mutual

def literals (inFootnote : Bool) : BlockTree → List Literal
  | .leaf block _ => block.literals inFootnote
  | .node container _ children => allLiterals (inFootnote || container.isFootnote) children

def allLiterals (inFootnote : Bool) : List BlockTree → List Literal
  | [] => []
  | tree :: rest => literals inFootnote tree ++ allLiterals inFootnote rest

end

mutual

theorem literals_eq_picked (inFootnote : Bool) (tree : BlockTree) :
    literals inFootnote tree = picked literalPick inFootnote tree := by
  cases tree with
  | leaf block span => rfl
  | node container span children =>
      rw [literals, picked]
      exact allLiterals_eq_picked _ children

theorem allLiterals_eq_picked (inFootnote : Bool) (trees : List BlockTree) :
    allLiterals inFootnote trees = allPicked literalPick inFootnote trees := by
  cases trees with
  | nil => rfl
  | cons tree rest =>
      rw [allLiterals, allPicked, literals_eq_picked inFootnote tree,
        allLiterals_eq_picked inFootnote rest]

end

end BlockTree

namespace BlockReader

def spineLiterals (blocks : List BlockTree) : List OpenContainer → List Literal
  | [] => BlockTree.allLiterals false blocks.reverse
  | innermost :: spine =>
      spineLiterals blocks spine ++
        BlockTree.allLiterals (inFootnote (innermost :: spine)) innermost.children.reverse

def literals (reader : BlockReader) : List Literal := spineLiterals reader.blocks reader.spine

theorem spineLiterals_eq_picked (blocks : List BlockTree) (spine : List OpenContainer) :
    spineLiterals blocks spine = spinePicked literalPick blocks spine := by
  induction spine with
  | nil => exact BlockTree.allLiterals_eq_picked _ _
  | cons innermost spine ih => rw [spineLiterals, spinePicked, ih, BlockTree.allLiterals_eq_picked]

theorem literals_eq_picked (reader : BlockReader) : reader.literals = reader.picked literalPick :=
  spineLiterals_eq_picked _ _

theorem literals_append (tree : BlockTree) (reader : BlockReader) :
    (reader.append tree).literals =
      reader.literals ++ tree.literals (inFootnote reader.spine) := by
  simp only [literals_eq_picked, BlockTree.literals_eq_picked, picked_append]

theorem literals_close (stop : Nat) (reader : BlockReader) :
    (reader.close stop).literals = reader.literals := by
  simp only [literals_eq_picked, picked_close]

@[simp] theorem literals_push (container : Container) (start : Nat) (reader : BlockReader) :
    (reader.push container start).literals = reader.literals := by
  simp only [literals_eq_picked, picked_push]

@[simp] theorem literals_closeTo (depth stop : Nat) (reader : BlockReader) :
    (reader.closeTo depth stop).literals = reader.literals := by
  simp only [literals_eq_picked, picked_closeTo]

@[simp] theorem literals_loosenParent (reader : BlockReader) :
    reader.loosenParent.literals = reader.literals := by
  simp only [literals_eq_picked, picked_loosenParent]

@[simp] theorem literals_finishList (stop : Nat) (reader : BlockReader) :
    (reader.finishList stop).literals = reader.literals := by
  simp only [literals_eq_picked, picked_finishList]

@[simp] theorem literals_openContainers (fuel : Nat) (head : LineHead) (reader : BlockReader) :
    (openContainers fuel head reader).1.literals = reader.literals := by
  simp only [literals_eq_picked, picked_openContainers]

@[simp] theorem literals_blankLine (n : Nat) (reader : BlockReader) :
    (reader.blankLine n).literals = reader.literals := by
  simp only [literals_eq_picked, picked_blankLine]

theorem literals_finishLeaf (read : LeafRead) (reader : BlockReader) :
    (finishLeaf read reader).literals =
      reader.literals ++ read.leaf.literals (inFootnote reader.spine) :=
  literals_append (.leaf read.leaf read.span) reader

end BlockReader

namespace LeafReader

theorem literals_paragraphFrom (extensions : Extensions) (containers : List Container)
    (inFootnote : Bool) (start fuel : Nat) (tokens : List Token) (position : Nat) (text : Text) :
    (paragraphFrom extensions containers start fuel tokens position text).leaf.literals inFootnote =
      [] := by
  induction fuel generalizing tokens position text with
  | zero => rfl
  | succ fuel ih =>
      unfold paragraphFrom
      simp only
      split
      · rfl
      · split
        · rfl
        · exact ih _ _ _

theorem literals_paragraph (extensions : Extensions) (containers : List Container)
    (inFootnote : Bool) (task : Option Token) (position : Nat) (text : Text) :
    (paragraph extensions containers task position text).leaf.literals inFootnote = [] := by
  unfold paragraph
  simp only
  split
  · rfl
  · exact literals_paragraphFrom extensions containers inFootnote _ _ _ _ _

theorem literals_heading (extensions : Extensions) (inFootnote : Bool) (position level : Nat)
    (text : Text) :
    (heading extensions position level text).leaf.literals inFootnote = [] := by
  unfold heading
  simp only
  split <;> rfl

end LeafReader

namespace BlockReader

@[simp] theorem literals_readText (head : LineHead) (reader : BlockReader) :
    (readText head reader).literals = reader.literals := by
  unfold readText
  rw [literals_finishLeaf, LeafReader.literals_paragraph, List.append_nil]
  rfl

@[simp] theorem literals_readParagraph (fuel : Nat) (head : LineHead) (reader : BlockReader) :
    (readParagraph fuel head reader).literals = reader.literals := by
  induction fuel generalizing head reader with
  | zero => rfl
  | succ fuel ih =>
      unfold readParagraph
      simp only
      split
      · exact literals_readText head reader
      · split
        · rfl
        · exact ih _ _

theorem literals_readLeaf (head : LineHead) (reader : BlockReader) :
    reader.literals <+: (readLeaf head reader).literals := by
  have hfinish (read : LeafRead) (last : Bool) : reader.literals <+:
      (finishLeaf read { reader.finishList reader.position with lastBlank := last }).literals := by
    rw [literals_finishLeaf]
    exact (literals_finishList _ reader) ▸ List.prefix_append _ _
  unfold readLeaf
  simp only
  split
  · simp
  split
  · exact hfinish _ _
  split
  · exact hfinish _ _
  split
  · exact hfinish _ _
  split
  · exact hfinish _ _
  split
  · exact hfinish _ _
  split
  · exact hfinish _ _
  · simp

theorem literals_readBlock (reader : BlockReader) :
    reader.literals <+: reader.readBlock.literals := by
  unfold readBlock
  simp only
  split
  · next opened hopened =>
      have hliterals := congrArg (fun found : BlockReader × Option LineHead => found.1.literals)
        hopened
      simp at hliterals
      exact hliterals ▸ List.prefix_rfl
  · next opened head hopened =>
      have hliterals := congrArg (fun found : BlockReader × Option LineHead => found.1.literals)
        hopened
      simp at hliterals
      rw [hliterals]
      split
      · simp
      · exact literals_readLeaf head opened

theorem literals_readBlocks (fuel : Nat) (reader : BlockReader) :
    reader.literals <+: (readBlocks fuel reader).literals := by
  induction fuel generalizing reader with
  | zero => exact List.prefix_rfl
  | succ fuel ih =>
      rw [readBlocks]
      split
      · exact List.prefix_rfl
      · exact (literals_readBlock reader).trans (ih _)

end BlockReader

end Canonmark.Source
