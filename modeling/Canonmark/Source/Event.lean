import Canonmark.Text.Basic

/-!
# Events

A document that has been read is a sequence of events, each with the part of the source it comes
from: nodes are entered and left, and what they hold lies between. Some kinds belong to extensions
that no reader of this library turns on; a document can be built of them all the same.
-/

namespace Canonmark.Source

inductive LinkForm where
  | direct
  /-- With the label of a definition, which may be its own text. -/
  | labelled
  | autolink
  | mail
  deriving DecidableEq, Inhabited, Repr

inductive Tag where
  | paragraph
  | heading (level : Nat)
  | quote
  /-- Bullet lists have no number. -/
  | list (number : Option Nat)
  | item
  /-- Indented code has no info string. -/
  | code (info : Option Text)
  | htmlBlock
  | metadata
  | footnote
  | table
  | tableHead
  | tableRow
  | tableCell
  | termList
  | term
  | termDetails
  | emphasis
  | strong
  | strike
  | superscript
  | subscript
  | link (image : Bool) (form : LinkForm) (destination title : Text)
  deriving DecidableEq, Inhabited, Repr

inductive Event where
  | enter (tag : Tag)
  | leave
  | text (text : Text)
  | code (text : Text)
  | html (text : Text)
  | inlineHtml (text : Text)
  | inlineMath
  | displayMath
  | footnoteReference
  | softBreak
  | hardBreak
  | rule
  | task (checked : Bool)
  deriving DecidableEq, Inhabited, Repr

abbrev Located := Event × Span

inductive InlineAtom where
  | text (text : Text)
  | code (text : Text)
  | inlineHtml (text : Text)
  | footnoteReference
  | softBreak
  | task (checked : Bool)
  deriving DecidableEq, Inhabited, Repr

def InlineAtom.event : InlineAtom → Event
  | .text content => .text content
  | .code content => .code content
  | .inlineHtml content => .inlineHtml content
  | .footnoteReference => .footnoteReference
  | .softBreak => .softBreak
  | .task checked => .task checked

inductive InlineTag where
  | emphasis
  | strong
  | strike
  | link (image : Bool) (form : LinkForm) (destination title : Text)
  deriving DecidableEq, Inhabited, Repr

def InlineTag.tag : InlineTag → Tag
  | .emphasis => .emphasis
  | .strong => .strong
  | .strike => .strike
  | .link image form destination title => .link image form destination title

inductive LiteralPiece where
  | text (text : Text)
  | html (text : Text)
  deriving DecidableEq, Inhabited, Repr

def LiteralPiece.event : LiteralPiece → Event
  | .text content => .text content
  | .html content => .html content

abbrev LocatedPiece := LiteralPiece × Span

end Canonmark.Source
