import Canonmark.Toml.Value

/-!
# TOML scalars

Strings, and the numbers, dates and words that are written without quotes.
-/

namespace Canonmark.Toml.Scalar

/-- Controls other than tabulators occur nowhere. -/
def isForbidden (c : Char) : Bool := Ascii.isControl c && c ≠ '\t'

private def codePoint? (size : Nat) (text : Text) : Option Char :=
  let digits := text.take size
  if digits.length = size && digits.all Ascii.isHexDigit then
    let n := Ascii.hexadecimal digits
    if n < 0xd800 || (0xdfff < n && n ≤ 0x10ffff) then some (Char.ofNat n) else none
  else none

private def escape? : Text → Option (Char × Nat)
  | [] => none
  | c :: rest =>
      match c with
      | 'b' => some ('\x08', 1)
      | 't' => some ('\t', 1)
      | 'n' => some ('\n', 1)
      | 'f' => some ('\x0c', 1)
      | 'r' => some ('\r', 1)
      | 'e' => some ('\x1b', 1)
      | '"' => some ('"', 1)
      | '\\' => some ('\\', 1)
      | 'x' => (codePoint? 2 rest).map (·, 3)
      | 'u' => (codePoint? 4 rest).map (·, 5)
      | 'U' => (codePoint? 8 rest).map (·, 9)
      | _ => none

private def lineFrom (quote : Char) : Nat → (kept : Text) → Text → Except Error (Text × Text)
  | 0, _, _ => .error .unclosedString
  | _, _, [] => .error .unclosedString
  | fuel + 1, kept, c :: rest =>
      if c = quote then .ok (kept.reverse, rest)
      else if c = '\\' && quote = '"' then
        match escape? rest with
        | some (d, n) => lineFrom quote fuel (d :: kept) (rest.drop n)
        | none => .error .invalidEscape
      else if isForbidden c then .error .invalidCharacter
      else lineFrom quote fuel (c :: kept) rest

private def eol? : Text → Option Text
  | '\n' :: rest => some rest
  | '\r' :: '\n' :: rest => some rest
  | _ => none

/-- White space behind a backslash, if a line ends in it: what follows. -/
private def continuation? (text : Text) : Option Text :=
  let rest := text.dropWhile fun c => c = ' ' || c = '\t'
  (eol? rest).bind fun rest =>
    let tail := rest.dropWhile fun c => c = ' ' || c = '\t' || c = '\n' || c = '\r'
    let passed := rest.take (rest.length - tail.length)
    if loneReturn passed then none else some tail
where
  loneReturn : Text → Bool
    | [] => false
    | '\r' :: '\n' :: rest => loneReturn rest
    | '\r' :: _ => true
    | _ :: rest => loneReturn rest

private def linesFrom (quote : Char) : Nat → (kept : Text) → Text → Except Error (Text × Text)
  | 0, _, _ => .error .unclosedString
  | _, _, [] => .error .unclosedString
  | fuel + 1, kept, c :: rest =>
      if c = quote && (rest.take 2).length = 2 && (rest.take 2).all (· = quote) then
        let extra := min 2 ((rest.drop 2).takeWhile (· = quote)).length
        .ok (kept.reverse ++ List.replicate extra quote, rest.drop (2 + extra))
      else
        match eol? (c :: rest) with
        | some next => linesFrom quote fuel ('\n' :: kept) next
        | none =>
            if c = '\\' && quote = '"' then
              match escape? rest with
              | some (d, n) => linesFrom quote fuel (d :: kept) (rest.drop n)
              | none =>
                  match continuation? rest with
                  | some next => linesFrom quote fuel kept next
                  | none => .error .invalidEscape
            else if isForbidden c then .error .invalidCharacter
            else linesFrom quote fuel (c :: kept) rest

def line (quote : Char) (text : Text) : Except Error (Text × Text) :=
  lineFrom quote (text.length + 1) [] text

/-- Reads a string from behind its opening quote; three quotes open one of several lines. -/
def string (quote : Char) (text : Text) : Except Error (Text × Text) :=
  match text with
  | a :: b :: rest =>
      if a = quote && b = quote then
        linesFrom quote (rest.length + 1) [] ((eol? rest).getD rest)
      else line quote text
  | _ => line quote text

/-- Digits with single underscores between them. -/
private def isDigits (isDigit : Char → Bool) (text : Text) : Bool :=
  let blocks := (text.map fun c => if c = '_' then '\n' else c)
  !text.contains '\n' && (Text.splitLines blocks).all fun block =>
    !block.isEmpty && block.all isDigit

private def isUnpadded (text : Text) : Bool := text.length = 1 || text.head? ≠ some '0'

private def unsigned : Text → Text
  | '+' :: rest => rest
  | '-' :: rest => rest
  | text => text

private def isExponent (text : Text) : Bool :=
  let (before, after) := text.span fun c => c ≠ 'e' && c ≠ 'E'
  before.isEmpty && !after.isEmpty && isDigits Ascii.isDigit (unsigned (after.drop 1))

private def isFloat (text : Text) : Bool :=
  let body := unsigned text
  if body = "inf".toList || body = "nan".toList then true
  else
    let whole := body.takeWhile fun c => Ascii.isDigit c || c = '_'
    let rest := body.drop whole.length
    isDigits Ascii.isDigit whole && isUnpadded whole &&
      match rest with
      | '.' :: tail =>
          let fraction := tail.takeWhile fun c => Ascii.isDigit c || c = '_'
          let behind := tail.drop fraction.length
          isDigits Ascii.isDigit fraction && (behind.isEmpty || isExponent behind)
      | _ => isExponent rest

private def withBase (base : Nat) (digits : Text) : Int :=
  (digits.filter (· ≠ '_')).foldl (fun n c => base * n + Ascii.hexValue c) 0

/-- Integers that some type of 128 bits holds. -/
def isInRange (n : Int) : Bool := -(Int.pow 2 127) ≤ n && n < Int.pow 2 128

private def integer? (text : Text) : Option Int :=
  match text with
  | '0' :: 'x' :: digits =>
      if isDigits Ascii.isHexDigit digits then some (withBase 16 digits) else none
  | '0' :: 'o' :: digits =>
      if isDigits (fun c => '0' ≤ c && c ≤ '7') digits then some (withBase 8 digits) else none
  | '0' :: 'b' :: digits =>
      if isDigits (fun c => c = '0' || c = '1') digits then some (withBase 2 digits) else none
  | _ =>
      let digits := unsigned text
      if isDigits Ascii.isDigit digits && isUnpadded digits then
        let n := withBase 10 digits
        some (if text.head? = some '-' then -n else n)
      else none

private def pair? (max : Nat) : Text → Option (Nat × Text)
  | a :: b :: rest =>
      if Ascii.isDigit a && Ascii.isDigit b && Ascii.decimal [a, b] ≤ max then
        some (Ascii.decimal [a, b], rest)
      else none
  | _ => none

private def isLeap (year : Nat) : Bool :=
  year % 4 = 0 && (year % 100 ≠ 0 || year % 400 = 0)

private def monthLength (year month : Nat) : Nat :=
  if month = 2 then (if isLeap year then 29 else 28)
  else if month = 4 || month = 6 || month = 9 || month = 11 then 30
  else 31

private def literal? (c : Char) : Text → Option Text
  | d :: rest => if d = c then some rest else none
  | [] => none

private def date? (text : Text) : Option Text := do
  let year := text.take 4
  guard (year.length = 4 && year.all Ascii.isDigit)
  let (month, rest) ← pair? 12 (← literal? '-' (text.drop 4))
  let (day, rest) ← pair? 31 (← literal? '-' rest)
  guard (1 ≤ month && 1 ≤ day && day ≤ monthLength (Ascii.decimal year) month)
  return rest

/-- Seconds may be left out. -/
private def time? (text : Text) : Option Text := do
  let (_, rest) ← pair? 23 text
  let (_, rest) ← pair? 59 (← literal? ':' rest)
  match literal? ':' rest with
  | none => return rest
  | some rest =>
      let (_, rest) ← pair? 60 rest
      match literal? '.' rest with
      | none => return rest
      | some rest =>
          let fraction := rest.takeWhile Ascii.isDigit
          guard !fraction.isEmpty
          return rest.drop fraction.length

private def offset? (text : Text) : Option Text :=
  match text with
  | [] => none
  | c :: rest =>
      if c = 'Z' || c = 'z' then some rest
      else if c = '+' || c = '-' then do
        let (_, rest) ← pair? 23 rest
        let (_, rest) ← pair? 59 (← literal? ':' rest)
        return rest
      else none

private def isDateTime (text : Text) : Bool :=
  match date? text with
  | some [] => true
  | some (c :: rest) =>
      if c = 'T' || c = 't' || c = ' ' then
        match time? rest with
        | some [] => true
        | some rest => offset? rest = some []
        | none => false
      else false
  | none => time? text = some []

private def isWordCharacter (c : Char) : Bool :=
  Ascii.isLetterOrDigit c || c = '+' || c = '-' || c = '_' || c = '.' || c = ':'

/-- The scalar at the front; a date and a time may stand on both sides of a space. -/
private def word (text : Text) : Text :=
  let first := text.takeWhile isWordCharacter
  match text.drop first.length with
  | ' ' :: c :: rest =>
      if Ascii.isDigit c && date? first = some [] then
        first ++ ' ' :: (c :: rest).takeWhile isWordCharacter
      else first
  | _ => first

private def ofWord (text : Text) : Except Error Value :=
  if text = "true".toList then .ok (.boolean true)
  else if text = "false".toList then .ok (.boolean false)
  else
    match integer? text with
    | some n => if isInRange n then .ok (.integer n) else .error .invalidScalar
    | none =>
        if isFloat text then .ok .float
        else if isDateTime text then .ok .dateTime
        else .error .invalidScalar

def bare (text : Text) : Except Error (Value × Text) :=
  let found := word text
  (ofWord found).map fun value => (value, text.drop found.length)

end Canonmark.Toml.Scalar
