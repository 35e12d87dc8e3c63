import Canonmark.Reference.Catalog
import Canonmark.Yaml.Node

/-!
# Catalog files

A catalog is written as a YAML mapping with a sequence of targets under `references`. Other keys
are ignored; a key that counts stands at most once.
-/

namespace Canonmark

inductive CatalogError where
  | malformed (error : Yaml.Error)
  | unexpectedShape
  | duplicateKey
  | missingUid
  deriving DecidableEq, Inhabited, Repr

namespace CatalogFile

open Yaml (Node)

abbrev Read := Except CatalogError

/-- The text of a scalar; numbers and words such as `null` are texts too. -/
private def text : Node → Read Text
  | .scalar _ _ text => .ok text
  | _ => .error .unexpectedShape

/-- An empty scalar without quotes stands for an empty collection. -/
private def isNothing : Node → Bool
  | .scalar _ plain text => plain && text.isEmpty
  | _ => false

def nullTag : Text := "tag:yaml.org,2002:null".toList

private def isNullWord (text : Text) : Bool :=
  ["null", "Null", "NULL", "~"].any (·.toList = text)

private def optionalText : Node → Read (Option Text)
  | .scalar tag plain text =>
      if !plain then .ok (some text)
      else
        match tag with
        | none => .ok (if text.isEmpty || isNullWord text then none else some text)
        | some tag =>
            if tag ≠ nullTag then .ok (some text)
            else if isNullWord text then .ok none
            else .error .unexpectedShape
  | _ => .error .unexpectedShape

private def entries : Node → Read (List (Text × Node))
  | .mapping entries =>
      entries.mapM fun (key, value) => do
        return (← text key, value)
  | node => if isNothing node then .ok [] else .error .unexpectedShape

private def field? (name : String) (fields : List (Text × Node)) : Read (Option Node) :=
  match fields.filter (·.1 = name.toList) with
  | [] => .ok none
  | [(_, value)] => .ok (some value)
  | _ => .error .duplicateKey

private def optionalField (name : String) (fields : List (Text × Node)) : Read (Option Text) := do
  match ← field? name fields with
  | some value => optionalText value
  | none => return none

private def target (node : Node) : Read Target := do
  let fields ← entries node
  match ← field? "uid" fields with
  | none => throw .missingUid
  | some uid =>
      return ⟨← text uid, ← optionalField "name" fields, ← optionalField "href" fields⟩

private def targets : Node → Read (List Target)
  | .sequence items => items.mapM target
  | node => if isNothing node then .ok [] else .error .unexpectedShape

private def document (node : Node) : Read Catalog := do
  match ← field? "references" (← entries node) with
  | some references => return Catalog.ofList (← targets references)
  | none => return Catalog.empty

/-- The catalog in a text. White space around it does not count, and nothing is no target. -/
def parse (source : Text) : Read Catalog := do
  let source := Unicode.trim source
  if source.isEmpty then
    return Catalog.empty
  match Node.ofText source with
  | .error error => throw (.malformed error)
  | .ok none => return Catalog.empty
  | .ok (some node) => document node

end CatalogFile

end Canonmark
