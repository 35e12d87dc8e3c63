import Canonmark.Reference.Target

/-!
# Registries

Targets by their identifiers, exactly as written. A later target replaces an earlier one.
-/

namespace Canonmark

/-- The identifiers of the targets differ. -/
structure Registry where
  targets : List Target := []
  deriving DecidableEq, Inhabited, Repr

namespace Registry

def empty : Registry := {}

def get? (registry : Registry) (uid : Text) : Option Target :=
  registry.targets.find? (·.uid = uid)

def insert (registry : Registry) (target : Target) : Registry :=
  ⟨registry.targets.filter (·.uid ≠ target.uid) ++ [target]⟩

def ofList (targets : List Target) : Registry := targets.foldl insert empty

def size (registry : Registry) : Nat := registry.targets.length

def resolver (registry : Registry) : Resolver := fun query => .ok (registry.get? query.uid)

end Registry

end Canonmark
