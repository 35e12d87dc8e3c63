import Canonmark.Text.Basic

/-!
# Documents

A document is a list of blocks. Inline content is a forest of leaves and of nodes that wrap
other inline content, so that a walk over it has two cases. What the tree does not model is
kept as the text it was written as.
-/

namespace Canonmark

inductive Leaf where
  /-- Text as it is written, escapes and character references included. -/
  | text (text : Text)
  | autolink (uri : Text)
  /-- A cross reference between angle brackets, under its scheme. -/
  | autolinkXref (scheme identifier : Text)
  /-- A cross reference after an at sign, and whether its target is known. -/
  | xref (identifier : Text) (resolved : Bool)
  /-- A mail address between angle brackets, perhaps after a scheme. -/
  | mail (scheme : Option Text) (address : Text)
  | html (text : Text)
  | video (url : Text)
  | code (text : Text)
  | softBreak
  /-- A line break written as a backslash or as trailing spaces. -/
  | hardBreak (backslash : Bool)
  | task (checked : Bool)
  /-- Any other inline content, as it is written. -/
  | raw (text : Text)
  deriving DecidableEq, Inhabited, Repr

inductive Wrapper where
  | emphasis (delimiter : Char)
  | strong (delimiter : Char)
  | strike (delimiter : Text)
  | link (image : Bool) (destination : Text) (title : Option Text)
  deriving DecidableEq, Inhabited, Repr

inductive Inline where
  | leaf (leaf : Leaf)
  | node (wrapper : Wrapper) (children : List Inline)
  deriving Inhabited, Repr

inductive ListKind where
  | bullet (bullet : Char)
  | ordered (start : Nat) (delimiter : Char)
  deriving DecidableEq, Inhabited, Repr

/-- Blocks whose content is not looked into. -/
inductive Verbatim where
  /-- Code with its opening fence, or indented code when there is none. -/
  | code (fence : Option Text) (info text : Text)
  | html (text : Text)
  | rule (marker : Text)
  | frontMatter (text : Text)
  /-- Any other block, as it is written. -/
  | source (text : Text)
  deriving DecidableEq, Inhabited, Repr

inductive Block where
  | paragraph (content : List Inline)
  | heading (level : Nat) (content : List Inline)
  /-- The depth counts the quotes around the content, this one included. -/
  | quote (depth : Nat) (children : List Block)
  | list (kind : ListKind) (tight : Bool) (items : List (List Block))
  | verbatim (verbatim : Verbatim)
  deriving Inhabited, Repr

abbrev Document := List Block

end Canonmark
