/-!
# Extensions of the syntax

What a document may hold beyond the core of Markdown.
-/

namespace Canonmark

structure Extensions where
  tables : Bool := true
  strikethrough : Bool := true
  tasklists : Bool := true
  footnotes : Bool := false
  /-- Metadata between lines of three hyphens. -/
  frontMatter : Bool := true
  deriving DecidableEq, Inhabited, Repr

namespace Extensions

def none : Extensions := ⟨false, false, false, false, false⟩

def names (extensions : Extensions) : List String :=
  [(extensions.tables, "tables"), (extensions.strikethrough, "strikethrough"),
    (extensions.tasklists, "tasklists"), (extensions.footnotes, "footnotes"),
    (extensions.frontMatter, "front_matter")].filterMap
    fun (enabled, name) => if enabled then some name else Option.none

end Extensions

end Canonmark
