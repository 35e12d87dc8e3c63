import Canonmark.Text.Basic

/-!
# Parentheses without a partner

An opening parenthesis and a closing one behind it are partners when the parentheses between
them are balanced. The others are unmatched; every unmatched closing parenthesis stands before
every unmatched opening one.
-/

namespace Canonmark.Parentheses

/--
Positions of the unmatched parentheses of a text that starts at `position`. The open ones before
it stand at `opened`, latest first.
-/
def unmatchedFrom (position : Nat) (opened : List Nat) : Text → List Nat
  | [] => opened.reverse
  | c :: rest =>
      if c = '(' then unmatchedFrom (position + 1) (position :: opened) rest
      else if c = ')' then
        match opened with
        | [] => position :: unmatchedFrom (position + 1) [] rest
        | _ :: opened => unmatchedFrom (position + 1) opened rest
      else unmatchedFrom (position + 1) opened rest

def unmatched (text : Text) : List Nat := unmatchedFrom 0 [] text

end Canonmark.Parentheses
