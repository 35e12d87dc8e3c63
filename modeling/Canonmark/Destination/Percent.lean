import Canonmark.Destination.Parentheses
import Canonmark.Text.Ascii

/-!
# Percent coding of destinations

Characters that would end a destination or change it are written as a percent sign and two
hexadecimal digits: ASCII controls, spaces, angle brackets, percent signs that start no such
triplet, and unmatched parentheses.
-/

namespace Canonmark.Percent

def startsTriplet : Text → Bool
  | a :: b :: _ => Ascii.isHexDigit a && Ascii.isHexDigit b
  | _ => false

def hexDigit (n : Nat) : Char := (Nat.digitChar n).toUpper

def triplet (c : Char) : Text := ['%', hexDigit (c.toNat / 16), hexDigit (c.toNat % 16)]

/-- Whether a character that is followed by `rest` has to be written as a triplet. -/
def isReserved (unmatched : Bool) (c : Char) (rest : Text) : Bool :=
  if c = '%' then !startsTriplet rest
  else if c = '(' || c = ')' then unmatched
  else c = ' ' || c = '<' || c = '>' || Ascii.isControl c

def encodeFrom (unmatched : List Nat) (position : Nat) : Text → Text
  | [] => []
  | c :: rest =>
      (if isReserved (unmatched.contains position) c rest then triplet c else [c])
        ++ encodeFrom unmatched (position + 1) rest

def encode (destination : Text) : Text :=
  encodeFrom (Parentheses.unmatched destination) 0 destination

end Canonmark.Percent
