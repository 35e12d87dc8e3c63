import Canonmark.Text.Unicode

/-!
# Fenced lines

Which lines of a text belong to fenced code, judged line by line. A fence is three or more
backticks or tildes, perhaps behind quote markers; it is closed by as many of the same character
and nothing else.
-/

namespace Canonmark.FencedLines

/-- The character and size of the fence that is open, if one is. -/
abbrev State := Option (Char × Nat)

def stripQuotes : Nat → Text → Text
  | 0, line => line
  | fuel + 1, line =>
      match line.dropWhile (· = ' ') with
      | '>' :: rest => stripQuotes fuel rest
      | _ => line

def content (line : Text) : Text :=
  (stripQuotes line.length line).dropWhile Unicode.isWhitespace

/-- The fence that a line opens. Backticks do not occur behind a fence of them. -/
def opening? (line : Text) : State :=
  match content line with
  | [] => none
  | c :: rest =>
      let size := (rest.takeWhile (· = c)).length + 1
      if (c = '\x60' || c = '~') && 3 ≤ size
          && !(c = '\x60' && (rest.drop (size - 1)).contains '\x60') then
        some (c, size)
      else none

def closes (char : Char) (size : Nat) (line : Text) : Bool :=
  let text := content line
  let found := (text.takeWhile (· = char)).length
  size ≤ found && Unicode.isBlank (text.drop found)

/-- The state behind a line, and whether the line is part of fenced code. -/
def step (state : State) (line : Text) : State × Bool :=
  match state with
  | some (char, size) => (if closes char size line then none else state, true)
  | none =>
      let opened := opening? line
      (opened, opened.isSome)

end Canonmark.FencedLines
