import Canonmark.Proofs.Canonical.Document

/-!
# Documents that are told what is known

When answers are given by a function, a document becomes canonical node by node and nothing is
asked for.
-/

namespace Canonmark.Canonical

variable {known : Text → Bool}

def tell (known : Text → Bool) (identifier : Text) : Id Bool := pure (known identifier)

def toldLeaf (known : Text → Bool) (content : Leaf) : Leaf := Id.run (leaf (tell known) content)

def told (known : Text → Bool) (node : Inline) : Inline := Id.run (inline (tell known) node)

def toldAll (known : Text → Bool) (depth : Nat) (nodes : List Inline) : List Inline :=
  Id.run (inlines (tell known) depth nodes)

@[simp] theorem told_leaf (known : Text → Bool) (content : Leaf) :
    told known (.leaf content) = .leaf (toldLeaf known content) := by
  simp only [told, inline, Id.run_bind, Id.run_pure]
  rfl

@[simp] theorem told_node (known : Text → Bool) (kind : Wrapper) (children : List Inline) :
    told known (.node kind children) = .node (wrapper kind) (toldAll known 0 children) := by
  simp only [told, inline, Id.run_bind, Id.run_pure]
  rfl

@[simp] theorem toldAll_nil (known : Text → Bool) (depth : Nat) : toldAll known depth [] = [] := by
  simp only [toldAll, inlines, Id.run_pure]

theorem toldAll_cons (known : Text → Bool) (depth : Nat) (node : Inline) (rest : List Inline) :
    toldAll known depth (node :: rest) =
      (if depthAfter depth node = 0 then [told known node] else elements (told known node)) ++
        toldAll known (depthAfter depth node) rest := by
  simp only [toldAll, inlines, Id.run_bind, Id.run_pure]
  rfl

def toldBlock (known : Text → Bool) (content : Block) : Block := Id.run (block (tell known) content)

def toldBlocks (known : Text → Bool) (content : List Block) : List Block :=
  Id.run (blocks (tell known) content)

def toldItems (known : Text → Bool) (items : List (List Block)) : List (List Block) :=
  Id.run (itemsOf (tell known) items)

@[simp] theorem toldBlock_paragraph (known : Text → Bool) (content : List Inline) :
    toldBlock known (.paragraph content) = .paragraph (toldAll known 0 content) := by
  simp only [toldBlock, block, Id.run_bind, Id.run_pure]
  rfl

@[simp] theorem toldBlock_heading (known : Text → Bool) (level : Nat) (content : List Inline) :
    toldBlock known (.heading level content) = .heading level (toldAll known 0 content) := by
  simp only [toldBlock, block, Id.run_bind, Id.run_pure]
  rfl

@[simp] theorem toldBlock_quote (known : Text → Bool) (depth : Nat) (children : List Block) :
    toldBlock known (.quote depth children) =
      .quote depth (VideoParagraph.split (toldBlocks known children)) := by
  simp only [toldBlock, block, Id.run_bind, Id.run_pure]
  rfl

@[simp] theorem toldBlock_list (known : Text → Bool) (kind : ListKind) (tight : Bool)
    (items : List (List Block)) :
    toldBlock known (.list kind tight items) = .list kind tight (toldItems known items) := by
  simp only [toldBlock, block, Id.run_bind, Id.run_pure]
  rfl

@[simp] theorem toldBlock_verbatim (known : Text → Bool) (content : Verbatim) :
    toldBlock known (.verbatim content) = .verbatim (verbatim content) := by
  simp only [toldBlock, block, Id.run_pure]

@[simp] theorem toldBlocks_nil (known : Text → Bool) : toldBlocks known [] = [] := by
  simp only [toldBlocks, blocks, Id.run_pure]

@[simp] theorem toldBlocks_cons (known : Text → Bool) (first : Block) (rest : List Block) :
    toldBlocks known (first :: rest) = toldBlock known first :: toldBlocks known rest := by
  simp only [toldBlocks, blocks, Id.run_bind, Id.run_pure]
  rfl

@[simp] theorem toldItems_nil (known : Text → Bool) : toldItems known [] = [] := by
  simp only [toldItems, itemsOf, Id.run_pure]

@[simp] theorem toldItems_cons (known : Text → Bool) (first : List Block)
    (rest : List (List Block)) :
    toldItems known (first :: rest) = toldBlocks known first :: toldItems known rest := by
  simp only [toldItems, itemsOf, Id.run_bind, Id.run_pure]
  rfl

def Scope.knows (scope : Scope) (identifier : Text) : Bool :=
  Answer.isKnown (scope.resolver ⟨identifier, scope.path⟩)

theorem document_value (scope : Scope) (before : Document) :
    (document scope before).value = toldBlocks scope.knows before := by
  obtain ⟨make, -, hasks⟩ := exists_documentWith before
  have hanswers : (before.queries scope.path).mapM (m := Id)
      (fun query => pure (scope.resolver query))
      = pure ((before.queries scope.path).map scope.resolver) := by
    simp
  have hasked := hasks Asked scope.resolver.ask scope.path
  have htold := hasks Id (fun query => pure (scope.resolver query)) scope.path
  rw [Asked.mapM_ask] at hasked
  rw [hanswers] at htold
  rw [document, hasked]
  exact htold.symm

end Canonmark.Canonical
