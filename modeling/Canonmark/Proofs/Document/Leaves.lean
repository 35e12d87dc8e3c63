import Canonmark.Document.Basic

/-!
# Leaves

The leaves of a document in reading order, and the references among them: their identifiers, and
whether their targets are known.
-/

namespace Canonmark

namespace Inline

mutual

def leaves : Inline → List Leaf
  | .leaf content => [content]
  | .node _ children => leavesOf children

def leavesOf : List Inline → List Leaf
  | [] => []
  | first :: rest => leaves first ++ leavesOf rest

end

@[simp] theorem leavesOf_append (first second : List Inline) :
    leavesOf (first ++ second) = leavesOf first ++ leavesOf second := by
  induction first with
  | nil => rfl
  | cons _ rest ih => rw [List.cons_append, leavesOf, leavesOf, ih, List.append_assoc]

theorem leavesOf_singleton (content : Inline) : leavesOf [content] = content.leaves :=
  List.append_nil _

theorem leavesOf_replicate (n : Nat) (content : Leaf) :
    leavesOf (List.replicate n (.leaf content)) = List.replicate n content := by
  induction n with
  | zero => rfl
  | succ n ih => exact congrArg (content :: ·) ih

end Inline

namespace Block

mutual

def leaves : Block → List Leaf
  | .paragraph content => Inline.leavesOf content
  | .heading _ content => Inline.leavesOf content
  | .quote _ children => leavesOf children
  | .list _ _ items => itemLeaves items
  | .verbatim _ => []

def leavesOf : List Block → List Leaf
  | [] => []
  | block :: rest => leaves block ++ leavesOf rest

def itemLeaves : List (List Block) → List Leaf
  | [] => []
  | item :: rest => leavesOf item ++ itemLeaves rest

end

@[simp] theorem leavesOf_append (first second : List Block) :
    leavesOf (first ++ second) = leavesOf first ++ leavesOf second := by
  induction first with
  | nil => rfl
  | cons block rest ih => rw [List.cons_append, leavesOf, leavesOf, ih, List.append_assoc]

end Block

def Document.leaves (document : Document) : List Leaf := Block.leavesOf document

namespace Leaf

def identifier? : Leaf → Option Text
  | .xref identifier _ => some identifier
  | _ => none

def resolved? : Leaf → Option Bool
  | .xref _ resolved => some resolved
  | _ => none

end Leaf

namespace Document

/-- What the references of a document refer to, in reading order. -/
def identifiers (document : Document) : List Text :=
  document.leaves.filterMap Leaf.identifier?

def resolutions (document : Document) : List Bool :=
  document.leaves.filterMap Leaf.resolved?

end Document

end Canonmark
