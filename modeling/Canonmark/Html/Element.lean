import Canonmark.Text.Unicode

/-!
# Elements of HTML

What tags say about the content around them.
-/

namespace Canonmark.Html

def voidElements : List Text :=
  ["area", "base", "br", "col", "embed", "hr", "img", "input", "link", "meta", "source", "track",
    "wbr"].map String.toList

/-- Elements whose content is no text to be read. -/
def literalElements : List Text := ["pre", "code", "script", "style"].map String.toList

inductive Nesting where
  | opens
  | closes
  | keeps
  deriving DecidableEq, Inhabited, Repr

namespace Nesting

def elementName (text : Text) : Text :=
  text.takeWhile fun c => Ascii.isLetterOrDigit c || c = '-'

def ofFragment (fragment : Text) : Nesting :=
  match Unicode.trim fragment with
  | '<' :: '/' :: _ => .closes
  | '<' :: '!' :: _ => .keeps
  | '<' :: '?' :: _ => .keeps
  | '<' :: rest =>
      let name := elementName rest
      if ['/', '>'].isSuffixOf rest || name.isEmpty
          || voidElements.contains (name.map Ascii.lower) then .keeps
      else .opens
  | _ => .keeps

/-- The number of open elements behind a fragment. It never falls below zero. -/
def depthAfter (depth : Nat) : Nesting → Nat
  | .opens => depth + 1
  | .closes => depth - 1
  | .keeps => depth

/-- The number of open literal elements behind a tag. A name ends where a word does. -/
def literalDepthAfter (depth : Nat) (tag : Text) : Nat :=
  let (closing, name) := match tag with
    | '<' :: '/' :: rest => (true, rest)
    | '<' :: rest => (false, rest)
    | _ => (false, [])
  let isLiteral := literalElements.any fun element =>
    (name.take element.length).map Ascii.lower == element
      && !(name.drop element.length).head?.any Unicode.isWord
  if !isLiteral then depth else if closing then depth - 1 else depth + 1

end Nesting

end Canonmark.Html
