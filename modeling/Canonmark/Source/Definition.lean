import Canonmark.Source.BlockStart

/-!
# Link reference definitions

A definition gives a label a destination and perhaps a title. It may run over line breaks as
long as the lines would continue a paragraph.
-/

namespace Canonmark.Source

structure Definition where
  /-- The label, as labels are compared. -/
  key : Text
  destination : Text
  title : Text
  span : Span
  deriving DecidableEq, Inhabited, Repr

namespace Definition

def maxNesting : Nat := 1

/-- How much of a new line is no content, unless the line belongs to another block. -/
def follow? (extensions : Extensions) (containers : List Container) (line : Text) :
    Option Nat :=
  let (inside, head) := LineHead.within containers line
  let (indented, next) := head.takeExactly 4
  if indented then some next.taken
  else if interrupts extensions containers inside next.rest || (underline? next.rest).isSome then
    none
  else some next.taken

/-- Length of the space at the front and the line breaks in it, of which there is at most one. -/
def space? (follow : Text → Option Nat) (text : Text) : Option (Nat × Nat) :=
  let blanks := countWhile Ascii.isBlank text
  match eol? (text.drop blanks) with
  | none => some (blanks, 0)
  | some n =>
      (follow (text.drop (blanks + n))).bind fun skipped =>
        let next := blanks + n + skipped
        let more := countWhile Ascii.isBlank (text.drop next)
        match eol? (text.drop (next + more)) with
        | none => some (next + more, 1)
        | some _ => none

/-- The title so far is `kept`, latest first; the result is the title with its length. -/
def titleFrom? (follow : Text → Option Nat) (close : Char) :
    Nat → (kept : Text) → (length : Nat) → Text → Option (Text × Nat)
  | 0, _, _, _ => none
  | fuel + 1, kept, length, text =>
      match text with
      | [] => none
      | c :: rest =>
          if c = close then some (kept.reverse, length + 1)
          else if c = '(' && close = ')' then none
          else
            match eol? text with
            | some n =>
                (follow (text.drop n)).bind fun skipped =>
                  let line := text.drop (n + skipped)
                  let indent := countWhile (fun c => c = ' ' || c = '\t') line
                  titleFrom? follow close fuel ('\n' :: kept) (length + n + skipped + indent)
                    (line.drop indent)
            | none =>
                match c, rest with
                | '\\', d :: tail =>
                    if d = '\n' || d = '\r' then
                      titleFrom? follow close fuel (c :: kept) (length + 1) rest
                    else titleFrom? follow close fuel (d :: c :: kept) (length + 2) tail
                | _, _ => titleFrom? follow close fuel (c :: kept) (length + 1) rest

def title? (follow : Text → Option Nat) : Text → Option (Text × Nat)
  | '"' :: rest => titleFrom? follow '"' (rest.length + 1) [] 1 rest
  | '\'' :: rest => titleFrom? follow '\'' (rest.length + 1) [] 1 rest
  | '(' :: rest => titleFrom? follow ')' (rest.length + 1) [] 1 rest
  | _ => none

def target? (follow : Text → Option Nat) (text : Text) : Option (Text × Text × Nat) :=
  (space? follow text).bind fun (before, _) =>
    (Destination.scan? maxNesting (text.drop before)).bind fun (written, size) =>
      if size = 0 then none
      else
        let stop := before + size
        let destination := Escape.resolve written
        let untitled := (destination, [], stop)
        match space? follow (text.drop stop) with
        | none => some untitled
        | some (0, _) => none
        | some (between, breaks) =>
            let otherwise := if breaks = 0 then none else some untitled
            match title? follow (text.drop (stop + between)) with
            | none => otherwise
            | some (title, length) =>
                let last := stop + between + length
                if isBlankLine (text.drop last) then
                  some (destination, Escape.resolve title, last)
                else otherwise

def scan? (extensions : Extensions) (containers : List Container) (position : Nat)
    (text : Text) : Option (Definition × Nat) :=
  let follow := follow? extensions containers
  match text with
  | '[' :: rest =>
      (Label.scan? follow rest).bind fun (label, n) =>
        match rest.drop n with
        | ':' :: tail =>
            (target? follow tail).map fun (destination, title, length) =>
              let size := 1 + n + 1 + length
              (⟨Label.key label, destination, title, .ofLength position size⟩, size)
        | _ => none
  | _ => none

/-- Adds a definition behind the others; of equal labels the first one counts. -/
def register (definitions : List Definition) (definition : Definition) : List Definition :=
  if definitions.any (·.key = definition.key) then definitions
  else definitions ++ [definition]

def find? (definitions : List Definition) (label : Text) : Option Definition :=
  definitions.find? (·.key = Label.key label)

end Definition

end Canonmark.Source
