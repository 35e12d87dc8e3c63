import Canonmark.Text.Ascii

/-!
# TOML values

Values, and the tables that keys and headers build. What made a table decides whether something
else may add to it.
-/

namespace Canonmark.Toml

inductive Error where
  | invalidCharacter
  | invalidEscape
  | invalidKey
  | invalidScalar
  | unclosedString
  | unclosedCollection
  | unexpectedText
  | nestedTooDeeply
  | duplicateKey
  | notATable
  deriving DecidableEq, Inhabited, Repr

inductive Origin where
  /-- A header that names a table inside it. -/
  | implied
  | dotted
  | header
  | inlined
  deriving DecidableEq, Inhabited, Repr

inductive Value where
  | string (text : Text)
  | integer (value : Int)
  | float
  | boolean (value : Bool)
  | dateTime
  /-- Headers may add tables to an array that they made. -/
  | array (ofHeaders : Bool) (items : List Value)
  | table (origin : Origin) (entries : List (Text × Value))
  deriving Inhabited, Repr

abbrev Entries := List (Text × Value)

namespace Entries

def modify (key : Text) (f : Option Value → Except Error Value) : Entries → Except Error Entries
  | [] => (f none).map fun value => [(key, value)]
  | (other, value) :: rest =>
      if other = key then (f (some value)).map fun value => (other, value) :: rest
      else (modify key f rest).map ((other, value) :: ·)

private def modifyLast (f : Value → Except Error Value) :
    List Value → Except Error (List Value)
  | [] => .error .notATable
  | [value] => (f value).map ([·])
  | value :: rest => (modifyLast f rest).map (value :: ·)

/--
Changes the table at a path below a table. Tables that are missing are made; of an array of
tables the last one counts. A dotted key does not pass a table that has a header.
-/
def within (dotted : Bool) (f : Origin → Entries → Except Error Entries) :
    (path : List Text) → (origin : Origin) → Entries → Except Error Entries
  | [], origin, entries => f origin entries
  | key :: path, _, entries =>
      modify key (fun value =>
        match value with
        | none =>
            let origin := if dotted then Origin.dotted else .implied
            (within dotted f path origin []).map (.table origin)
        | some (.table origin inner) =>
            if origin = .inlined then .error .notATable
            else if dotted && origin = .header then .error .duplicateKey
            else (within dotted f path origin inner).map (.table origin)
        | some (.array true items) =>
            (modifyLast (fun last =>
              match last with
              | .table origin inner => (within dotted f path origin inner).map (.table origin)
              | _ => .error .notATable) items).map (.array true)
        | some _ => .error .notATable) entries

private def addNew (key : Text) (value : Value) : Entries → Except Error Entries :=
  modify key fun found => if found.isSome then .error .duplicateKey else .ok value

/-- Gives a dotted key a value. It ends in a table that dotted keys have made. -/
def insert (path : List Text) (key : Text) (value : Value) : Entries → Except Error Entries :=
  within true (fun origin entries =>
    if (origin = .dotted) = path.isEmpty then .error .duplicateKey else addNew key value entries)
    path .header

def openTable (path : List Text) (key : Text) : Entries → Except Error Entries :=
  within false (fun _ entries =>
    modify key (fun found =>
      match found with
      | none => .ok (.table .header [])
      | some (.table .implied inner) => .ok (.table .header inner)
      | some _ => .error .duplicateKey) entries) path .header

def openItem (path : List Text) (key : Text) : Entries → Except Error Entries :=
  within false (fun _ entries =>
    modify key (fun found =>
      match found with
      | none => .ok (.array true [.table .header []])
      | some (.array true items) => .ok (.array true (items ++ [.table .header []]))
      | some _ => .error .duplicateKey) entries) path .header

end Entries

end Canonmark.Toml
