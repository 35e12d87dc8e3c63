import Canonmark.Source.Extensions

/-!
# Settings

How sources are read and printed.
-/

namespace Canonmark

structure Settings where
  /-- No empty line follows a heading. -/
  compactHeadings : Bool := false
  spacedDestinations : Bool := true
  extensions : Extensions := {}
  deriving DecidableEq, Inhabited, Repr

namespace Settings

private def flag (name : String) (value : Bool) : String :=
  name ++ ": " ++ if value then "true" else "false"

private def record (name : String) (fields : List String) : String :=
  name ++ " \x7b " ++ ", ".intercalate fields ++ " \x7d"

def describe (settings : Settings) : String :=
  let extensions := settings.extensions
  let parser := record "ParserOptions"
    [flag "tables" extensions.tables, flag "strikethrough" extensions.strikethrough,
      flag "tasklists" extensions.tasklists, flag "footnotes" extensions.footnotes,
      flag "front_matter" extensions.frontMatter]
  let options := record "MarkupOptions"
    [flag "legacy_mode" settings.compactHeadings,
      flag "lenient_link_destinations" settings.spacedDestinations, "parser: " ++ parser]
  record "MarkupEngine" ["options: " ++ options, ".."]

end Settings

end Canonmark
