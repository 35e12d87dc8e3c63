import Canonmark.Yaml.Cursor

/-!
# Scalars

Plain, quoted and block scalars, each read to its end.
-/

namespace Canonmark.Yaml.Scalar

def isFlowIndicator (c : Char) : Bool :=
  c = ',' || c = '[' || c = ']' || c = '\x7b' || c = '\x7d'

private def wordLength (inFlow : Bool) : Text → Except Error Nat
  | [] => .ok 0
  | c :: rest =>
      if isBlank c || isBreak c then .ok 0
      else if inFlow && c = ':' && rest.head?.any fun d => isFlowIndicator d || d = '?' then
        .error .misplacedIndicator
      else if (c = ':' && endsWord rest) || (inFlow && isFlowIndicator c) then .ok 0
      else (wordLength inFlow rest).map (· + 1)

private def plainFrom (inFlow : Bool) (indent : Nat) :
    Nat → (kept : Text) → Gap → Cursor → Except Error (Text × Bool × Cursor)
  | 0, kept, gap, cursor => .ok (kept, gap.first.isSome, cursor)
  | fuel + 1, kept, gap, cursor => do
      if cursor.atDocumentMarker || cursor.rest.head? = some '#' then
        return (kept, gap.first.isSome, cursor)
      let n ← wordLength inFlow cursor.rest
      if n = 0 then
        return (kept, gap.first.isSome, cursor)
      let kept := kept ++ gap.text ++ cursor.rest.take n
      let cursor := cursor.skip n
      if cursor.rest.isEmpty || !endsWord cursor.rest then
        return (kept, false, cursor)
      let (gap, cursor) ← Gap.read indent {} cursor
      if !inFlow && cursor.column < indent then
        return (kept, gap.first.isSome, cursor)
      plainFrom inFlow indent fuel kept gap cursor

/-- Reads a plain scalar; the flag tells whether a line break follows it. -/
def plain (inFlow : Bool) (indent : Nat) (cursor : Cursor) : Except Error (Text × Bool × Cursor) :=
  plainFrom inFlow indent (cursor.rest.length + 1) [] {} cursor

private def codePoint? (size : Nat) (text : Text) : Option Char :=
  let digits := text.take size
  if digits.length = size && digits.all Ascii.isHexDigit then
    let n := Ascii.hexadecimal digits
    if n < 0xd800 || (0xdfff < n && n ≤ 0x10ffff) then some (Char.ofNat n) else none
  else none

private def escape? : Text → Option (Char × Nat)
  | [] => none
  | c :: rest =>
      match c with
      | '0' => some ('\x00', 1)
      | 'a' => some ('\x07', 1)
      | 'b' => some ('\x08', 1)
      | 't' => some ('\t', 1)
      | '\t' => some ('\t', 1)
      | 'n' => some ('\n', 1)
      | 'v' => some ('\x0b', 1)
      | 'f' => some ('\x0c', 1)
      | 'r' => some ('\r', 1)
      | 'e' => some ('\x1b', 1)
      | ' ' => some (' ', 1)
      | '"' => some ('"', 1)
      | '/' => some ('/', 1)
      | '\\' => some ('\\', 1)
      | 'N' => some ('\u0085', 1)
      | '_' => some ('\u00a0', 1)
      | 'L' => some ('\u2028', 1)
      | 'P' => some ('\u2029', 1)
      | 'x' => (codePoint? 2 rest).map (·, 3)
      | 'u' => (codePoint? 4 rest).map (·, 5)
      | 'U' => (codePoint? 8 rest).map (·, 9)
      | _ => none

private def quotedFrom (quote : Char) :
    Nat → (kept : Text) → Cursor → Except Error (Text × Cursor)
  | 0, _, _ => .error .unclosedScalar
  | fuel + 1, kept, cursor => do
      if cursor.atDocumentMarker then
        throw .unclosedScalar
      match cursor.rest with
      | [] => throw .unclosedScalar
      | c :: rest =>
          if c = quote then
            if quote = '\'' && rest.head? = some quote then
              quotedFrom quote fuel (quote :: kept) (cursor.skip 2)
            else return (kept.reverse, cursor.skip 1)
          else if c = '\\' && quote = '"' then
            match (cursor.skip 1).break? with
            | some (_, next) =>
                let (gap, next) ← Gap.read 0 { first := some [] } next
                quotedFrom quote fuel (gap.text.reverse ++ kept) next
            | none =>
                match escape? rest with
                | some (d, n) => quotedFrom quote fuel (d :: kept) (cursor.skip (n + 1))
                | none => throw .unknownEscape
          else if isBlank c || isBreak c then
            let (gap, next) ← Gap.read 0 {} cursor
            quotedFrom quote fuel (gap.text.reverse ++ kept) next
          else quotedFrom quote fuel (c :: kept) (cursor.skip 1)

def quoted (quote : Char) (cursor : Cursor) : Except Error (Text × Cursor) :=
  quotedFrom quote (cursor.rest.length + 1) [] (cursor.skip 1)

/-- What happens to the line breaks at the end. -/
inductive Chomping where
  | strip
  | clip
  | keep
  deriving DecidableEq, Repr

private def chomping? : Text → Option Chomping
  | '+' :: _ => some .keep
  | '-' :: _ => some .strip
  | _ => none

private def digit? : Text → Option Nat
  | c :: _ => if Ascii.isDigit c then some (Ascii.digitValue c) else none
  | [] => none

/-- The chomping and the indentation that follow the indicator, in either order. -/
private def header (cursor : Cursor) : Except Error (Chomping × Option Nat × Cursor) := do
  let (chomping, increment, cursor) : Option Chomping × Option Nat × Cursor :=
    match chomping? cursor.rest, digit? cursor.rest with
    | some chomping, _ =>
        let cursor := cursor.skip 1
        match digit? cursor.rest with
        | some n => (some chomping, some n, cursor.skip 1)
        | none => (some chomping, none, cursor)
    | none, some n =>
        let cursor := cursor.skip 1
        match chomping? cursor.rest with
        | some chomping => (some chomping, some n, cursor.skip 1)
        | none => (none, some n, cursor)
    | none, none => (none, none, cursor)
  if increment = some 0 then
    throw .invalidBlockHeader
  let cursor := cursor.skipWhile isBlank
  let cursor := if cursor.rest.head? = some '#' then cursor.skipLine else cursor
  if !endsLine cursor.rest then
    throw .invalidBlockHeader
  return (chomping.getD .clip, increment, cursor.skipBreak)

/--
Line breaks and indentation, and the widest indentation. The indentation of the content may not
be known yet.
-/
private def breaksFrom (indent : Option Nat) :
    Nat → (breaks : Text) → (widest : Nat) → Cursor → Except Error (Text × Nat × Cursor)
  | 0, breaks, widest, cursor => .ok (breaks, widest, cursor)
  | fuel + 1, breaks, widest, cursor =>
      let spaces := (cursor.rest.takeWhile (· = ' ')).length
      let cursor := cursor.skip (match indent with
        | some n => min spaces (n - cursor.column)
        | none => spaces)
      let widest := max widest cursor.column
      if cursor.rest.head? = some '\t' && indent.all (cursor.column < ·) then
        .error .misplacedTab
      else
        match cursor.break? with
        | some (text, next) => breaksFrom indent fuel (breaks ++ text) widest next
        | none => .ok (breaks, widest, cursor)

private def linesFrom (folded : Bool) (indent : Nat) :
    Nat → (kept lineBreak breaks : Text) → (blank : Bool) → Cursor →
      Except Error (Text × Text × Text × Cursor)
  | 0, kept, lineBreak, breaks, _, cursor => .ok (kept, lineBreak, breaks, cursor)
  | fuel + 1, kept, lineBreak, breaks, blank, cursor => do
      if cursor.column ≠ indent || cursor.rest.isEmpty then
        return (kept, lineBreak, breaks, cursor)
      let nowBlank := cursor.rest.head?.any isBlank
      let joint :=
        if folded && lineBreak = ['\n'] && !blank && !nowBlank then
          if breaks.isEmpty then [' '] else []
        else lineBreak
      let line := cursor.rest.takeWhile (!isBreak ·)
      let kept := kept ++ joint ++ breaks ++ line
      let cursor := cursor.skip line.length
      let (lineBreak, cursor) := (cursor.break?).getD ([], cursor)
      let (breaks, _, cursor) ←
        breaksFrom (some indent) (cursor.rest.length + 1) [] 0 cursor
      linesFrom folded indent fuel kept lineBreak breaks nowBlank cursor

/-- Reads a block scalar from its indicator on. Its content stands at `minIndent` or behind. -/
def block (folded : Bool) (minIndent : Nat) (cursor : Cursor) : Except Error (Text × Cursor) := do
  let (chomping, increment, cursor) ← header (cursor.skip 1)
  let indent := increment.map fun n => minIndent - 1 + n
  let (breaks, widest, cursor) ← breaksFrom indent (cursor.rest.length + 1) [] 0 cursor
  let indent := indent.getD (max widest (max minIndent 1))
  let (kept, lineBreak, breaks, cursor) ←
    linesFrom folded indent (cursor.rest.length + 1) [] [] breaks false cursor
  let text := match chomping with
    | .strip => kept
    | .clip => kept ++ lineBreak
    | .keep => kept ++ lineBreak ++ breaks
  return (text, cursor)

end Canonmark.Yaml.Scalar
