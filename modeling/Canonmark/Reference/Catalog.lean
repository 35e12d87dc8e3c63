import Canonmark.Reference.Target
import Canonmark.Text.Unicode

/-!
# Catalogs

Targets by their identifiers. An earlier target is never replaced, and an identifier that is not
found as it is written is looked up without regard to case. How identifiers are put in lower case
is a parameter of the tables.
-/

namespace Canonmark

structure Catalog where
  /-- In the order of insertion. The identifiers of the targets differ. -/
  targets : List Target := []
  /-- Identifiers in lower case, each with the first identifier that was registered for it. -/
  spellings : List (Text × Text) := []
  deriving DecidableEq, Inhabited, Repr

namespace Catalog

def empty : Catalog := {}

def size (catalog : Catalog) : Nat := catalog.targets.length

def find? (catalog : Catalog) (uid : Text) : Option Target :=
  catalog.targets.find? (·.uid = uid)

def contains (catalog : Catalog) (uid : Text) : Bool := (catalog.find? uid).isSome

/-- Notes an identifier for its spelling unless another one has been noted. -/
def note (spelling uid : Text) (spellings : List (Text × Text)) : List (Text × Text) :=
  if (spellings.lookup spelling).isSome then spellings else spellings ++ [(spelling, uid)]

/-- Adds a target if its identifier is new, and tells whether it is. -/
def registerBy (lower : Text → Text) (catalog : Catalog) (target : Target) : Bool × Catalog :=
  if catalog.contains target.uid then (false, catalog)
  else
    (true, ⟨catalog.targets ++ [target], note (lower target.uid) target.uid catalog.spellings⟩)

/-- The target of an identifier, or else of the identifier that was noted for its spelling. -/
def getBy? (lower : Text → Text) (catalog : Catalog) (uid : Text) : Option Target :=
  match catalog.find? uid with
  | some target => some target
  | none => (catalog.spellings.lookup (lower uid)).bind catalog.find?

def insertBy (lower : Text → Text) (catalog : Catalog) (target : Target) : Catalog :=
  (catalog.registerBy lower target).2

/-- Adds those of the targets whose identifiers are new, in the order in which they come. -/
def absorbBy (lower : Text → Text) (catalog : Catalog) (targets : List Target) : Catalog :=
  targets.foldl (insertBy lower) catalog

def ofListBy (lower : Text → Text) (targets : List Target) : Catalog :=
  targets.foldl (insertBy lower) empty

def register (catalog : Catalog) (target : Target) : Bool × Catalog :=
  catalog.registerBy Unicode.lowercase target

def insert (catalog : Catalog) (target : Target) : Catalog :=
  catalog.insertBy Unicode.lowercase target

def ofList (targets : List Target) : Catalog := ofListBy Unicode.lowercase targets

def merge (catalog other : Catalog) : Catalog := other.targets.foldl insert catalog

def get? (catalog : Catalog) (uid : Text) : Option Target := catalog.getBy? Unicode.lowercase uid

def resolver (catalog : Catalog) : Resolver := fun query => .ok (catalog.get? query.uid)

end Catalog

end Canonmark
