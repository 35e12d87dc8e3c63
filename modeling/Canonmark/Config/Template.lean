import Canonmark.Text.Unicode

/-!
# Templates

Texts that refer to variables, in braces or not. A reference in braces may hold a default for a
variable that is not set. A text without a brace behind a dollar sign refers to nothing.
-/

namespace Canonmark.Template

inductive Part where
  | literal (text : Text)
  | reference (name : Text) (default : Option Text)
  deriving DecidableEq, Inhabited, Repr

def splitDefault : Text → Option (Text × Text)
  | ':' :: '-' :: rest => some ([], rest)
  | c :: rest => (splitDefault rest).map fun (before, after) => (c :: before, after)
  | [] => none

/-- The reference between braces. A default stands behind a name. -/
def braced (content : Text) : Part :=
  match splitDefault content with
  | some (c :: name, default) => .reference (c :: name) (some default)
  | _ => .reference content none

def isNameCharacter (c : Char) : Bool := Unicode.isAlphanumeric c || c = '_'

def behindDollar (text : Text) : Part × Nat :=
  match text with
  | '\x7b' :: rest =>
      match Text.splitAtFirst? '\x7d' rest with
      | some (content, _) => (braced content, content.length + 2)
      | none => (.literal ['$', '\x7b'], 1)
  | '$' :: _ => (.literal ['$'], 1)
  | _ =>
      let name := text.takeWhile isNameCharacter
      if name.isEmpty then (.literal ['$'], 0) else (.reference name none, name.length)

/-- The next `skip` characters belong to the part before them. -/
def partsFrom : (skip : Nat) → Text → List Part
  | _, [] => []
  | skip + 1, _ :: rest => partsFrom skip rest
  | 0, c :: rest =>
      if c = '$' then
        let (part, n) := behindDollar rest
        part :: partsFrom n rest
      else .literal [c] :: partsFrom 0 rest

def parse (text : Text) : List Part :=
  if Text.hasInfix ['$', '\x7b'] text then partsFrom 0 text else [.literal text]

def references (text : Text) : List Text :=
  (parse text).filterMap fun part =>
    match part with
    | .literal _ => none
    | .reference name _ => some name

def expandPart (environment : Text → Option Text) : Part → Except Text Text
  | .literal text => .ok text
  | .reference name default =>
      match environment name, default with
      | some value, _ => .ok value
      | none, some value => .ok value
      | none, none => .error name

def expandParts (environment : Text → Option Text) : List Part → Except Text Text
  | [] => .ok []
  | part :: rest => do
      return (← expandPart environment part) ++ (← expandParts environment rest)

/-- Puts values in place of references, or fails with the first variable that has none. -/
def expand (environment : Text → Option Text) (text : Text) : Except Text Text :=
  expandParts environment (parse text)

end Canonmark.Template
