import Canonmark.Settings
import Canonmark.Toml.Document

/-!
# Configuration files

Settings and the paths of catalogs, as a TOML document holds them. What is not given keeps its
default, and other keys are ignored.
-/

namespace Canonmark

structure ConfigFile where
  settings : Settings := {}
  maps : List Text := []
  deriving DecidableEq, Inhabited, Repr

inductive ConfigFileError where
  | malformed (error : Toml.Error)
  | unexpectedValue
  deriving DecidableEq, Inhabited, Repr

namespace ConfigFile

open Toml (Value Entries)

abbrev Section := String → Option Value

/-- A section may also be an array of the values of its keys, in their order. -/
def sectionOf (keys : List String) : Value → Except ConfigFileError Section
  | .table _ entries => .ok fun key => entries.lookup key.toList
  | .array _ items => .ok fun key => (keys.zip items).lookup key
  | _ => .error .unexpectedValue

def readSection (entries : Entries) (name : String) (keys : List String) :
    Except ConfigFileError Section :=
  match entries.lookup name.toList with
  | some value => sectionOf keys value
  | none => .ok fun _ => none

def flag (fields : Section) (key : String) (default : Bool) :
    Except ConfigFileError Bool :=
  match fields key with
  | none => .ok default
  | some (.boolean value) => .ok value
  | some _ => .error .unexpectedValue

def text : Value → Except ConfigFileError Text
  | .string text => .ok text
  | _ => .error .unexpectedValue

def texts (fields : Section) (key : String) : Except ConfigFileError (List Text) :=
  match fields key with
  | none => .ok []
  | some (.array _ items) => items.mapM text
  | some _ => .error .unexpectedValue

def readExtensions (entries : Entries) : Except ConfigFileError Extensions := do
  let fields ← readSection entries "parser"
    ["tables", "strikethrough", "tasklists", "footnotes", "front_matter"]
  let default : Extensions := {}
  return {
    tables := ← flag fields "tables" default.tables
    strikethrough := ← flag fields "strikethrough" default.strikethrough
    tasklists := ← flag fields "tasklists" default.tasklists
    footnotes := ← flag fields "footnotes" default.footnotes
    frontMatter := ← flag fields "front_matter" default.frontMatter }

def ofEntries (entries : Entries) : Except ConfigFileError ConfigFile := do
  let fields ← readSection entries "markup" ["legacy_mode", "lenient_link_destinations"]
  let default : Settings := {}
  let settings : Settings := {
    compactHeadings := ← flag fields "legacy_mode" default.compactHeadings
    spacedDestinations := ← flag fields "lenient_link_destinations" default.spacedDestinations
    extensions := ← readExtensions entries }
  return ⟨settings, ← texts (← readSection entries "xref" ["maps"]) "maps"⟩

def parse (source : Text) : Except ConfigFileError ConfigFile :=
  match Entries.parse source with
  | .ok entries => ofEntries entries
  | .error error => .error (.malformed error)

end ConfigFile

end Canonmark
