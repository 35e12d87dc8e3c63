import Canonmark.Yaml.Scalar

/-!
# Tokens

The tokens of a text of YAML. Indentation becomes tokens that open and close block collections.
Where a key may stand is remembered: the colon behind it puts tokens in front of it.
-/

namespace Canonmark.Yaml

inductive Token where
  | version (major minor : Nat)
  | tagHandle (handle expansion : Text)
  | documentStart
  | documentEnd
  | sequenceStart
  | mappingStart
  | blockEnd
  | flowSequenceStart
  | flowSequenceEnd
  | flowMappingStart
  | flowMappingEnd
  | entry
  | flowEntry
  | key
  | value
  | alias (name : Text)
  | anchor (name : Text)
  | tag (handle suffix : Text)
  | scalar (plain : Bool) (text : Text)
  deriving DecidableEq, Inhabited, Repr

structure KeyCandidate where
  /-- Nothing but a key may stand there. -/
  required : Bool
  index : Nat
  line : Nat
  column : Nat
  offset : Nat
  deriving Inhabited, Repr

structure Tokenizer where
  cursor : Cursor
  tokens : List Token := []
  count : Nat := 0
  /-- The columns of the open block collections, innermost first. -/
  indents : List Nat := []
  /-- For each open flow collection, innermost first, and for the block around them. -/
  keys : List (Option KeyCandidate) := [none]
  keyAllowed : Bool := true
  deriving Inhabited

namespace Tokenizer

def inFlow (state : Tokenizer) : Bool := 1 < state.keys.length

def contentIndent (state : Tokenizer) : Nat :=
  match state.indents with
  | [] => 0
  | column :: _ => column + 1

def push (token : Token) (state : Tokenizer) : Tokenizer :=
  { state with tokens := token :: state.tokens, count := state.count + 1 }

def insert (index : Nat) (token : Token) (state : Tokenizer) : Tokenizer :=
  let behind := state.count - index
  { state with
    tokens := state.tokens.take behind ++ token :: state.tokens.drop behind
    count := state.count + 1 }

def skip (n : Nat) (state : Tokenizer) : Tokenizer := { state with cursor := state.cursor.skip n }

def allowKey (allowed : Bool) (state : Tokenizer) : Tokenizer :=
  { state with keyAllowed := allowed }

/-- Opens a block collection at a column, unless one is open there. -/
def openBlock (column index : Nat) (token : Token) (state : Tokenizer) : Tokenizer :=
  if state.inFlow || !state.indents.head?.all (· < column) then state
  else { state with indents := column :: state.indents }.insert index token

def closeBlocks (column : Nat) (state : Tokenizer) : Tokenizer :=
  if state.inFlow then state
  else
    let closed := state.indents.takeWhile (column ≤ ·)
    closed.foldl (fun state _ => state.push .blockEnd)
      { state with indents := state.indents.drop closed.length }

/-- A key and its colon stand on one line and not too far apart. -/
def maxKeyLength : Nat := 1024

def isStale (cursor : Cursor) (candidate : KeyCandidate) : Bool :=
  candidate.line < cursor.line || candidate.offset + maxKeyLength < cursor.offset

def dropStaleKeys (state : Tokenizer) : Except Error Tokenizer :=
  let stale := fun key : Option KeyCandidate => key.any (isStale state.cursor)
  if state.keys.any fun key => stale key && key.any (·.required) then .error .missingColon
  else .ok { state with keys := state.keys.map fun key => if stale key then none else key }

def dropKey (state : Tokenizer) : Except Error Tokenizer :=
  if state.keys.head?.join.any (·.required) then .error .missingColon
  else .ok { state with keys := none :: state.keys.drop 1 }

def noteKey (state : Tokenizer) : Except Error Tokenizer := do
  if !state.keyAllowed then
    return state
  let cursor := state.cursor
  let required := !state.inFlow && state.indents.head? = some cursor.column
  let state ← state.dropKey
  return { state with
    keys := some ⟨required, state.count, cursor.line, cursor.column, cursor.offset⟩
      :: state.keys.drop 1 }

/-- Passes blanks, comments and line breaks. Tabulators do not indent block collections. -/
def skipSpace : Nat → Tokenizer → Tokenizer
  | 0, state => state
  | fuel + 1, state =>
      let cursor := state.cursor
      let cursor :=
        if cursor.column = 0 && cursor.rest.head? = some '\ufeff' then cursor.skip 1 else cursor
      let tabs := state.inFlow || !state.keyAllowed
      let cursor := cursor.skipWhile fun c => c = ' ' || (tabs && c = '\t')
      let cursor := if cursor.rest.head? = some '#' then cursor.skipLine else cursor
      match cursor.break? with
      | some (_, next) =>
          skipSpace fuel
            { state with cursor := next, keyAllowed := state.keyAllowed || !state.inFlow }
      | none => { state with cursor := cursor }

private def isUriCharacter (verbatim : Bool) (c : Char) : Bool :=
  isNameCharacter c || ";/?:@&=+$.%!~*'()".toList.contains c
    || (verbatim && (c = ',' || c = '[' || c = ']'))

private def uri (verbatim : Bool) (text : Text) : Text :=
  text.takeWhile (isUriCharacter verbatim)

/-- A handle between exclamation marks, or the first of them with what follows it. -/
private def handle (text : Text) : Text :=
  match text with
  | '!' :: rest =>
      let name := rest.takeWhile isNameCharacter
      match rest.drop name.length with
      | '!' :: _ => '!' :: name ++ ['!']
      | _ => '!' :: name
  | _ => []

private def isClosedHandle (handle : Text) : Bool :=
  2 ≤ handle.length && handle.getLast? = some '!'

/-- The tag at the front: its handle, its suffix and its length. -/
private def tag (text : Text) : Except Error (Text × Text × Nat) :=
  match text with
  | '!' :: '<' :: rest =>
      let suffix := uri true rest
      if suffix.isEmpty || (rest.drop suffix.length).head? ≠ some '>' then .error .invalidTag
      else .ok ([], suffix, suffix.length + 3)
  | _ =>
      let start := handle text
      let suffix := uri false (text.drop start.length)
      if isClosedHandle start then
        if suffix.isEmpty then .error .invalidTag
        else .ok (start, suffix, start.length + suffix.length)
      else
        let name := start.drop 1 ++ suffix
        let n := start.length + suffix.length
        if name.isEmpty then .ok ([], ['!'], n) else .ok (['!'], name, n)

private def fetchTag (state : Tokenizer) : Except Error Tokenizer := do
  let state ← state.noteKey
  let (handle, suffix, n) ← tag state.cursor.rest
  let state := (state.skip n).allowKey false
  if endsWord state.cursor.rest || (state.inFlow && state.cursor.rest.head? = some ',') then
    return state.push (.tag handle suffix)
  throw .invalidTag

private def fetchAnchor (token : Text → Token) (state : Tokenizer) : Except Error Tokenizer := do
  let state ← state.noteKey
  let name := (state.cursor.rest.drop 1).takeWhile isNameCharacter
  let state := (state.skip (name.length + 1)).allowKey false
  let follows := state.cursor.rest
  if !name.isEmpty
      && (endsWord follows || follows.head?.any fun c => "?:,]\x7d%@\x60".toList.contains c) then
    return state.push (token name)
  throw .invalidAnchor

private def number? (cursor : Cursor) : Option (Nat × Cursor) :=
  let digits := cursor.rest.takeWhile Ascii.isDigit
  if digits.isEmpty || 9 < digits.length then none
  else some (Ascii.decimal digits, cursor.skip digits.length)

private def version? (cursor : Cursor) : Option (Token × Cursor) := do
  let (major, cursor) ← number? (cursor.skipWhile isBlank)
  guard (cursor.rest.head? = some '.')
  let (minor, cursor) ← number? (cursor.skip 1)
  return (.version major minor, cursor)

private def tagHandle? (cursor : Cursor) : Option (Token × Cursor) := do
  let cursor := cursor.skipWhile isBlank
  let name := handle cursor.rest
  guard (isClosedHandle name || name = ['!'])
  let cursor := cursor.skip name.length
  guard (cursor.rest.head?.any isBlank)
  let cursor := cursor.skipWhile isBlank
  let expansion := uri true cursor.rest
  guard !expansion.isEmpty
  let cursor := cursor.skip expansion.length
  guard (endsWord cursor.rest)
  return (.tagHandle name expansion, cursor)

private def fetchDirective (state : Tokenizer) : Except Error Tokenizer := do
  let state := (← (state.closeBlocks 0).dropKey).allowKey false
  let cursor := state.cursor.skip 1
  let name := cursor.rest.takeWhile isNameCharacter
  let cursor := cursor.skip name.length
  let found : Option (Token × Cursor) :=
    if !endsWord cursor.rest then none
    else if name = "YAML".toList then version? cursor
    else if name = "TAG".toList then tagHandle? cursor
    else none
  match found with
  | none => throw .invalidDirective
  | some (token, cursor) =>
      let cursor := cursor.skipWhile isBlank
      let cursor := if cursor.rest.head? = some '#' then cursor.skipLine else cursor
      if !endsLine cursor.rest then
        throw .invalidDirective
      return { state with cursor := cursor.skipBreak }.push token

private def fetchDocumentMarker (token : Token) (state : Tokenizer) : Except Error Tokenizer := do
  let state ← (state.closeBlocks 0).dropKey
  return ((state.allowKey false).skip 3).push token

private def fetchFlowStart (token : Token) (state : Tokenizer) : Except Error Tokenizer := do
  let state ← state.noteKey
  return ({ state with keys := none :: state.keys }.allowKey true |>.skip 1).push token

private def fetchFlowEnd (token : Token) (state : Tokenizer) : Except Error Tokenizer := do
  let state ← state.dropKey
  let keys := if state.inFlow then state.keys.drop 1 else state.keys
  return (({ state with keys := keys }.allowKey false).skip 1).push token

private def fetchFlowEntry (state : Tokenizer) : Except Error Tokenizer := do
  return (((← state.dropKey).allowKey true).skip 1).push .flowEntry

private def fetchEntry (state : Tokenizer) : Except Error Tokenizer := do
  if !state.inFlow && !state.keyAllowed then
    throw .misplacedIndicator
  let state := state.openBlock state.cursor.column state.count .sequenceStart
  return (((← state.dropKey).allowKey true).skip 1).push .entry

private def fetchKey (state : Tokenizer) : Except Error Tokenizer := do
  if !state.inFlow && !state.keyAllowed then
    throw .misplacedIndicator
  let state := state.openBlock state.cursor.column state.count .mappingStart
  let state ← state.dropKey
  return ((state.allowKey !state.inFlow).skip 1).push .key

private def fetchValue (state : Tokenizer) : Except Error Tokenizer := do
  match state.keys.head?.join with
  | some candidate =>
      let state := state.insert candidate.index .key
      let state := state.openBlock candidate.column candidate.index .mappingStart
      let state := { state with keys := none :: state.keys.drop 1 }
      return ((state.allowKey false).skip 1).push .value
  | none =>
      if !state.inFlow && !state.keyAllowed then
        throw .misplacedIndicator
      let state := state.openBlock state.cursor.column state.count .mappingStart
      return ((state.allowKey !state.inFlow).skip 1).push .value

private def fetchBlockScalar (folded : Bool) (state : Tokenizer) : Except Error Tokenizer := do
  let state := (← state.dropKey).allowKey true
  let (text, cursor) ← Scalar.block folded state.contentIndent state.cursor
  return { state with cursor := cursor }.push (.scalar false text)

private def fetchQuoted (quote : Char) (state : Tokenizer) : Except Error Tokenizer := do
  let state := (← state.noteKey).allowKey false
  let (text, cursor) ← Scalar.quoted quote state.cursor
  return { state with cursor := cursor }.push (.scalar false text)

private def fetchPlain (state : Tokenizer) : Except Error Tokenizer := do
  let state ← state.noteKey
  let (text, broken, cursor) ← Scalar.plain state.inFlow state.contentIndent state.cursor
  return { state with cursor := cursor, keyAllowed := broken }.push (.scalar true text)

private def startsPlain (inFlow : Bool) (c : Char) (rest : Text) : Bool :=
  if isBlank c || isBreak c then false
  else if c = '-' then !rest.head?.any isBlank
  else if c = '?' || c = ':' then !inFlow && !endsWord rest
  else !"-?:,[]\x7b\x7d#&*!|>'\"%@\x60".toList.contains c

private def fetch (c : Char) (rest : Text) (state : Tokenizer) : Except Error Tokenizer :=
  let inFlow := state.inFlow
  let cursor := state.cursor
  if cursor.column = 0 && c = '%' then fetchDirective state
  else if cursor.atMarker "---" then fetchDocumentMarker .documentStart state
  else if cursor.atMarker "..." then fetchDocumentMarker .documentEnd state
  else if c = '[' then fetchFlowStart .flowSequenceStart state
  else if c = '\x7b' then fetchFlowStart .flowMappingStart state
  else if c = ']' then fetchFlowEnd .flowSequenceEnd state
  else if c = '\x7d' then fetchFlowEnd .flowMappingEnd state
  else if c = ',' then fetchFlowEntry state
  else if c = '-' && endsWord rest then fetchEntry state
  else if c = '?' && (inFlow || endsWord rest) then fetchKey state
  else if c = ':' && (inFlow || endsWord rest) then fetchValue state
  else if c = '*' then fetchAnchor .alias state
  else if c = '&' then fetchAnchor .anchor state
  else if c = '!' then fetchTag state
  else if c = '|' && !inFlow then fetchBlockScalar false state
  else if c = '>' && !inFlow then fetchBlockScalar true state
  else if c = '\'' || c = '"' then fetchQuoted c state
  else if startsPlain inFlow c rest then fetchPlain state
  else .error .misplacedIndicator

private def run : Nat → Tokenizer → Except Error Tokenizer
  | 0, state => .ok state
  | fuel + 1, state => do
      let state := skipSpace (state.cursor.rest.length + 1) state
      let state ← state.dropStaleKeys
      let state := state.closeBlocks (state.cursor.column + 1)
      match state.cursor.rest with
      | [] => (state.closeBlocks 0).dropKey
      | c :: rest => run fuel (← fetch c rest state)

end Tokenizer

/-- The tokens of a text; a byte order mark may stand in front of it. -/
def Token.ofText (text : Text) : Except Error (List Token) := do
  let text := if text.head? = some '\ufeff' then text.drop 1 else text
  if !text.all isAllowed then
    throw .controlCharacter
  let state ← Tokenizer.run (text.length + 2) { cursor := { rest := text } }
  return state.tokens.reverse

end Canonmark.Yaml
