import Canonmark.Destination.Percent
import Canonmark.Document.Basic
import Canonmark.Html.Element
import Canonmark.Reference.Target
import Canonmark.Source.Link

/-!
# Canonical inline content

References learn whether their target is known, mail addresses lose their scheme, destinations
are percent coded, and emphasis between HTML tags becomes elements. Whoever is asked for an
identifier may act on it: `m` says how.
-/

namespace Canonmark.Canonical

variable {m : Type → Type} [Monad m]

def isAddress (text : Text) : Bool := Source.Autolink.address? (text ++ ['>']) = some text

def leaf (ask : Text → m Bool) : Leaf → m Leaf
  | .xref identifier _ => return .xref identifier (← ask identifier)
  | .mail scheme address =>
      return .mail (if isAddress address then none else scheme) address
  | leaf => return leaf

def wrapper : Wrapper → Wrapper
  | .link image destination title => .link image (Percent.encode destination) title
  | wrapper => wrapper

private def element? : Wrapper → Option Text
  | .emphasis _ => some "em".toList
  | .strong _ => some "strong".toList
  | _ => none

mutual

/-- A node with elements for emphasis, as far as no other node lies around it. -/
def elements : Inline → List Inline
  | .leaf leaf => [.leaf leaf]
  | .node wrapper children =>
      match element? wrapper with
      | some name =>
          .leaf (.html ('<' :: name ++ ['>']))
            :: elementsOf children ++ [.leaf (.html ('<' :: '/' :: name ++ ['>']))]
      | none => [.node wrapper children]

def elementsOf : List Inline → List Inline
  | [] => []
  | node :: rest => elements node ++ elementsOf rest

end

def depthAfter (depth : Nat) : Inline → Nat
  | .leaf (.html fragment) => (Html.Nesting.ofFragment fragment).depthAfter depth
  | _ => depth

mutual

def inline (ask : Text → m Bool) : Inline → m Inline
  | .leaf content => return .leaf (← leaf ask content)
  | .node kind children => return .node (wrapper kind) (← inlines ask 0 children)

/-- Siblings, the first of which follows `depth` open HTML elements. -/
def inlines (ask : Text → m Bool) (depth : Nat) : List Inline → m (List Inline)
  | [] => return []
  | node :: rest => do
      let depth := depthAfter depth node
      let first ← inline ask node
      let others ← inlines ask depth rest
      return (if depth = 0 then [first] else elements first) ++ others

end

end Canonmark.Canonical
