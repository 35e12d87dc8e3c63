import Canonmark.Text.Basic

/-!
# Splicing

Edits of a text, each a span and what is put in its place. They are applied in one pass in the
order of their starts, edits with one start in the order in which they were given. An edit that
starts before the end of the latest one, or reaches past the text, is dropped.
-/

namespace Canonmark

structure Edit where
  span : Span
  text : Text
  deriving DecidableEq, Inhabited, Repr

namespace Edit

def replacement (start width : Nat) (text : Text) : Edit :=
  ⟨.ofLength start width, text⟩

def insertion (position : Nat) (text : Text) : Edit := ⟨.ofLength position 0, text⟩

end Edit

namespace Splice

/-- Adds an edit in front of those that do not start before it. -/
def insertSorted (edit : Edit) : List Edit → List Edit
  | [] => [edit]
  | other :: rest =>
      if edit.span.start ≤ other.span.start then edit :: other :: rest
      else other :: insertSorted edit rest

/-- The edits by their starts; equal starts keep their order. -/
def sort (edits : List Edit) : List Edit := edits.foldr insertSorted []

/-- The edits that are applied to a text of `length` characters of which `cursor` are done. -/
def keep (length cursor : Nat) : List Edit → List Edit
  | [] => []
  | edit :: rest =>
      if edit.span.start < cursor || length < edit.span.stop then keep length cursor rest
      else edit :: keep length edit.span.stop rest

/-- Applies edits that ascend without overlap to what is left of a text behind `cursor`. -/
def replace (cursor : Nat) (text : Text) : List Edit → Text
  | [] => text
  | edit :: rest =>
      text.take (edit.span.start - cursor) ++ edit.text
        ++ replace edit.span.stop (text.drop (edit.span.stop - cursor)) rest

def apply (edits : List Edit) (text : Text) : Text :=
  replace 0 text (keep text.length 0 (sort edits))

end Splice

end Canonmark
