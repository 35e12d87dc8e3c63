import Canonmark.Source.Line

/-!
# Containers

Quotes, lists, items and footnotes hold other blocks. A line continues the open containers, from
the outermost in, as long as it carries what each of them asks for.
-/

namespace Canonmark.Source

inductive Container where
  | quote
  /-- Items are marked by the marker character; the first of an ordered list has the number. -/
  | list (tight : Bool) (marker : Char) (number : Nat)
  /-- Content stands to the right of the indentation. -/
  | item (indent : Nat)
  | footnote (label : Text)
  deriving DecidableEq, Inhabited, Repr

namespace LineHead

def quoteMarker? (head : LineHead) : Option LineHead :=
  match head.rest with
  | '>' :: _ => some ((head.advance 1).takeExactly 1).2
  | _ => none

def continue? (container : Container) (head : LineHead) : Option LineHead :=
  let indented (columns : Nat) : Option LineHead :=
    let (found, next) := head.takeExactly columns
    if found || next.atEol then some next else none
  match container with
  | .quote => (head.takeExactly 3).2.quoteMarker?
  | .list _ _ _ => some head
  | .item indent => indented indent
  | .footnote _ => indented 4

def continuation : List Container → LineHead → Nat × LineHead
  | [], head => (0, head)
  | container :: containers, head =>
      match head.continue? container with
      | some next =>
          let (n, last) := continuation containers next
          (n + 1, last)
      | none => (0, head)

def within (containers : List Container) (line : Text) : Bool × LineHead :=
  let (n, head) := continuation containers (start line)
  (n = containers.length, head)

end LineHead

def markersLength (containers : List Container) (line : Text) : Nat :=
  (LineHead.within containers line).2.taken

end Canonmark.Source
