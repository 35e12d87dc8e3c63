import Canonmark.Canonical.Inline
import Canonmark.Canonical.VideoParagraph
import Canonmark.Html.Emphasis

/-!
# Canonical documents

Blocks are made canonical in document order, each reference being asked for once.
-/

namespace Canonmark.Canonical

variable {m : Type → Type} [Monad m]

def verbatim : Verbatim → Verbatim
  | .html html => .html (Html.markEmphasis html)
  | verbatim => verbatim

mutual

def block (ask : Text → m Bool) : Block → m Block
  | .paragraph content => return .paragraph (← inlines ask 0 content)
  | .heading level content => return .heading level (← inlines ask 0 content)
  | .quote depth children => return .quote depth (VideoParagraph.split (← blocks ask children))
  | .list kind tight items => return .list kind tight (← itemsOf ask items)
  | .verbatim content => return .verbatim (verbatim content)

def blocks (ask : Text → m Bool) : List Block → m (List Block)
  | [] => return []
  | first :: rest => return (← block ask first) :: (← blocks ask rest)

def itemsOf (ask : Text → m Bool) : List (List Block) → m (List (List Block))
  | [] => return []
  | first :: rest => return (← blocks ask first) :: (← itemsOf ask rest)

end

def documentWith (resolver : Query → m Answer) (path : Text) (document : Document) : m Document :=
  blocks (fun identifier => Answer.isKnown <$> resolver ⟨identifier, path⟩) document

structure Scope where
  resolver : Resolver
  path : Text

def document (scope : Scope) (document : Document) : Asked Document :=
  documentWith scope.resolver.ask scope.path document

end Canonmark.Canonical
