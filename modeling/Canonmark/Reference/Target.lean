import Canonmark.Text.Basic

/-!
# Targets of references

What an identifier refers to, and how identifiers are looked up. An unknown identifier is an
answer; an error means that nothing could be looked up.
-/

namespace Canonmark

structure Target where
  uid : Text
  name : Option Text := none
  href : Option Text := none
  deriving DecidableEq, Inhabited, Repr

structure Query where
  uid : Text
  path : Text
  deriving DecidableEq, Inhabited, Repr

inductive ResolverError where
  | unavailable (reason : Text)
  | other (cause : Text)
  deriving DecidableEq, Inhabited, Repr

/-- The cause of another failure is no part of its message. -/
def ResolverError.message : ResolverError → Text
  | .unavailable reason => "xref resolver unavailable: ".toList ++ reason
  | .other _ => "xref resolver failed".toList

abbrev Answer := Except ResolverError (Option Target)

/-- Whether there is a target; a failure is none. -/
def Answer.isKnown : Answer → Bool
  | .ok target => target.isSome
  | .error _ => false

abbrev Resolver := Query → Answer

def Resolver.empty : Resolver := fun _ => .ok none

structure Asked (α : Type) where
  value : α
  queries : List Query
  deriving Inhabited, Repr

namespace Asked

instance : Monad Asked where
  pure value := ⟨value, []⟩
  bind asked next :=
    let result := next asked.value
    ⟨result.value, asked.queries ++ result.queries⟩

end Asked

def Resolver.ask (resolver : Resolver) (query : Query) : Asked Answer :=
  ⟨resolver query, [query]⟩

end Canonmark
