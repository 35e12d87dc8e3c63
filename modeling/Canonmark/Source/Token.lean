import Canonmark.Source.Extensions
import Canonmark.Source.Line
import Canonmark.Text.Entity
import Canonmark.Text.Unicode

/-!
# Tokens

A line of inline content is cut into text and into marks whose meaning depends on what follows
later in the block. A backslash is part of no token; the text behind it starts at the character
that it escapes.
-/

namespace Canonmark.Source

inductive Mark where
  | text
  | entity (value : Text)
  | delimiters (char : Char) (size : Nat) (opens closes : Bool)
  | backticks (size : Nat) (escaped : Bool)
  | angle
  | bracket
  | imageBracket
  /-- A closing bracket, and whether a reference may end there. -/
  | closingBracket (refers : Bool)
  | softBreak
  | hardBreak (backslash : Bool)
  | task (checked : Bool)
  deriving DecidableEq, Inhabited, Repr

structure Token where
  mark : Mark
  span : Span
  deriving DecidableEq, Inhabited, Repr

namespace Token

/-- Adds text behind the tokens, the latest of which comes first; adjacent texts are one. -/
def pushText (start stop : Nat) (tokens : List Token) : List Token :=
  if stop ≤ start then tokens
  else
    match tokens with
    | ⟨.text, span⟩ :: rest =>
        if span.stop = start then ⟨.text, .upTo span.start stop⟩ :: rest
        else ⟨.text, .upTo start stop⟩ :: tokens
    | _ => ⟨.text, .upTo start stop⟩ :: tokens

end Token

namespace DelimiterRun

def opens (c : Char) (size : Nat) (before after : Option Char) : Bool :=
  match after with
  | none => false
  | some next =>
      if Unicode.isWhitespace next then false
      else
        match before with
        | none => true
        | some previous =>
            (c = '*' && !Unicode.isPunctuation next)
              || (c = '~' && 1 < size)
              || (c = '~' && previous = '~' && !Unicode.isPunctuation next)
              || Unicode.isWhitespace previous || Unicode.isPunctuation previous

def closes (c : Char) (size : Nat) (before after : Option Char) : Bool :=
  match before with
  | none => false
  | some previous =>
      if Unicode.isWhitespace previous then false
      else
        match after with
        | none => true
        | some next =>
            ((c = '*' || (c = '~' && 1 < size)) && !Unicode.isPunctuation previous)
              || (c = '~' && previous = '~')
              || Unicode.isWhitespace next || Unicode.isPunctuation next

def maxTildes : Nat := 2

def isDelimiter (extensions : Extensions) (c : Char) : Bool :=
  c = '*' || c = '_' || (c = '~' && extensions.strikethrough)

def mark? (c : Char) (size : Nat) (before after : Option Char) : Option Mark :=
  let opening := opens c size before after
  let closing := closes c size before after
  if (opening || closing) && (c ≠ '~' || size ≤ maxTildes) then
    some (.delimiters c size opening closing)
  else none

end DelimiterRun

/-- A line that is read: the tokens up to it, latest first, what follows, and its break. -/
structure TokenLine where
  tokens : List Token
  position : Nat
  rest : Text
  lineBreak : Option Token
  deriving Inhabited

namespace TokenLine

/-- Ends a line before the line ending in `text`, the line so far being `behind`. -/
def finish (behind : Text) (tokens : List Token) (begun position : Nat)
    (text : Text) : TokenLine :=
  let stop := position + (eol? text).getD 0
  let rest := text.drop ((eol? text).getD 0)
  let backslashes := countWhile (· = '\\') behind
  let blanks := countWhile Ascii.isBlank behind
  if backslashes % 2 = 1 && !rest.isEmpty then
    ⟨Token.pushText begun (position - 1) tokens, stop, rest,
      some ⟨.hardBreak true, .upTo (position - 1) stop⟩⟩
  else
    let mark := if 2 ≤ blanks then Mark.hardBreak false else .softBreak
    ⟨Token.pushText begun (position - blanks) tokens, stop, rest,
      if text.isEmpty then none else some ⟨mark, .upTo (position - blanks) stop⟩⟩

structure Progress where
  tokens : List Token
  begun : Nat
  skip : Nat

def mark (tokens : List Token) (begun position : Nat) (mark : Mark)
    (offset size : Nat) : Progress :=
  let start := position + offset
  ⟨⟨mark, .ofLength start size⟩ :: Token.pushText begun position tokens, start + size,
    offset + size - 1⟩

/-- What the character `c` at `position` adds, between the line so far and the rest. -/
def step (extensions : Extensions) (behind : Text) (tokens : List Token)
    (begun position : Nat) (c : Char) (rest : Text) : Progress :=
  let mark := mark tokens begun position
  let plain : Progress := ⟨tokens, begun, 0⟩
  if c = '\\' then
    match rest with
    | d :: _ =>
        if !Ascii.isPunctuation d then plain
        else if d = '\x60' then
          let size := countWhile (· = '\x60') rest
          mark (.backticks size true) 1 size
        else ⟨Token.pushText begun position tokens, position + 1, 1⟩
    | [] => plain
  else if DelimiterRun.isDelimiter extensions c then
    let size := countWhile (· = c) rest + 1
    match DelimiterRun.mark? c size behind.head? (rest.drop (size - 1)).head? with
    | some run => mark run 0 size
    | none => ⟨tokens, begun, size - 1⟩
  else if c = '\x60' then
    let size := countWhile (· = '\x60') rest + 1
    mark (.backticks size false) 0 size
  else if c = '<' then if rest.head? = some '\\' then plain else mark .angle 0 1
  else if c = '!' && rest.head? = some '[' then mark .imageBracket 0 2
  else if c = '[' then mark .bracket 0 1
  else if c = ']' then mark (.closingBracket true) 0 1
  else if c = '&' then
    match Entity.reference? rest with
    | some (n, value) => mark (.entity value) 0 (n + 1)
    | none => plain
  else plain

/--
Reads on at `position`, where the line so far is `behind`, latest first, and text is pending
from `begun` on.
-/
def readFrom (extensions : Extensions) (behind : Text) (tokens : List Token)
    (begun position skip : Nat) : Text → TokenLine
  | [] => finish behind tokens begun position []
  | c :: rest =>
      if 0 < skip then
        readFrom extensions (c :: behind) tokens begun (position + 1) (skip - 1) rest
      else if c = '\n' || c = '\r' then finish behind tokens begun position (c :: rest)
      else
        let progress := step extensions behind tokens begun position c rest
        readFrom extensions (c :: behind) progress.tokens progress.begun (position + 1)
          progress.skip rest

def read (extensions : Extensions) (tokens : List Token) (position : Nat) (text : Text) :
    TokenLine :=
  readFrom extensions [] tokens position position 0 text

end TokenLine

end Canonmark.Source
