import Canonmark.Yaml.Token

/-!
# Nodes

The document that the tokens of a text spell. Aliases stand for the nodes they refer to.
-/

namespace Canonmark.Yaml

inductive Node where
  /-- The tag is resolved; plain scalars have no quotes and are no block. -/
  | scalar (tag : Option Text) (plain : Bool) (text : Text)
  | sequence (items : List Node)
  | mapping (entries : List (Node × Node))
  /-- An alias inside the node that it refers to. -/
  | cycle
  deriving Inhabited, Repr

namespace Node

def empty : Node := .scalar none true []

structure State where
  tokens : List Token
  anchors : List (Text × Node) := []
  handles : List (Text × Text) := []
  deriving Inhabited

abbrev Reading := StateT State (Except Error)

private def next? : Reading (Option Token) := return (← get).tokens.head?

private def drop : Reading Unit := modify fun state => { state with tokens := state.tokens.drop 1 }

private def nextIn (tokens : List Token) : Reading Bool := return (← next?).any tokens.contains

private def accept (token : Token) : Reading Bool := do
  if (← next?) = some token then
    drop
    return true
  return false

private def expect (token : Token) : Reading Unit := do
  unless ← accept token do throw .unexpectedToken

private def define (name : Text) (node : Node) : Reading Unit :=
  modify fun state => { state with anchors := (name, node) :: state.anchors }

private def finish (node : Node) : List (Text × Node) → Text → List (Text × Node)
  | [], _ => []
  | (name, .cycle) :: rest, wanted =>
      if name = wanted then (name, node) :: rest else (name, .cycle) :: finish node rest wanted
  | entry :: rest, wanted =>
      if entry.1 = wanted then entry :: rest else entry :: finish node rest wanted

private def expandTag (handle suffix : Text) : Reading Text := do
  if handle.isEmpty then
    return suffix
  match (← get).handles.lookup handle with
  | some expansion => return expansion ++ suffix
  | none => throw .unknownTagHandle

private def properties : Reading (Option Text × Option Text) := do
  match ← next? with
  | some (.anchor name) =>
      drop
      match ← next? with
      | some (.tag handle suffix) =>
          drop
          return (some name, some (← expandTag handle suffix))
      | _ => return (some name, none)
  | some (.tag handle suffix) =>
      drop
      match ← next? with
      | some (.anchor name) =>
          drop
          return (some name, some (← expandTag handle suffix))
      | _ => return (none, some (← expandTag handle suffix))
  | _ => return (none, none)

mutual

/-- A node; sequences in a mapping need no indentation, and flow collections hold no blocks. -/
def read (fuel : Nat) (block indentless : Bool) : Reading Node := do
  match fuel with
  | 0 => throw .unexpectedToken
  | fuel + 1 =>
      if let some (.alias name) ← next? then
        drop
        match (← get).anchors.lookup name with
        | some node => return node
        | none => throw .unknownAnchor
      let (anchor, tag) ← properties
      if let some name := anchor then
        define name .cycle
      let node ← content fuel block indentless (anchor.isSome || tag.isSome) tag
      if let some name := anchor then
        modify fun state => { state with anchors := finish node state.anchors name }
      return node

def content (fuel : Nat) (block indentless optional : Bool) (tag : Option Text) :
    Reading Node := do
  match fuel with
  | 0 => throw .unexpectedToken
  | fuel + 1 =>
      match ← next? with
      | some (.scalar plain text) =>
          drop
          return .scalar tag plain text
      | some .flowSequenceStart =>
          drop
          .sequence <$> flowItems fuel true
      | some .flowMappingStart =>
          drop
          .mapping <$> flowEntries fuel true
      | some .entry =>
          if indentless then .sequence <$> indentlessItems fuel else missing optional tag
      | some .sequenceStart =>
          if block then
            drop
            .sequence <$> items fuel
          else missing optional tag
      | some .mappingStart =>
          if block then
            drop
            .mapping <$> entries fuel
          else missing optional tag
      | _ => missing optional tag

/-- Properties may stand for an empty node. -/
def missing (optional : Bool) (tag : Option Text) : Reading Node :=
  if optional then return .scalar tag true [] else throw .unexpectedToken

def readUnless (fuel : Nat) (tokens : List Token) (block indentless : Bool) : Reading Node := do
  match fuel with
  | 0 => throw .unexpectedToken
  | fuel + 1 => if ← nextIn tokens then return empty else read fuel block indentless

def items (fuel : Nat) : Reading (List Node) := do
  match fuel with
  | 0 => throw .unexpectedToken
  | fuel + 1 =>
      if ← accept .entry then
        let first ← readUnless fuel [.entry, .blockEnd] true false
        return first :: (← items fuel)
      if ← accept .blockEnd then
        return []
      throw .unexpectedToken

def indentlessItems (fuel : Nat) : Reading (List Node) := do
  match fuel with
  | 0 => throw .unexpectedToken
  | fuel + 1 =>
      if ← accept .entry then
        let first ← readUnless fuel [.entry, .key, .value, .blockEnd] true false
        return first :: (← indentlessItems fuel)
      return []

def entries (fuel : Nat) : Reading (List (Node × Node)) := do
  match fuel with
  | 0 => throw .unexpectedToken
  | fuel + 1 =>
      if ← accept .key then
        let key ← readUnless fuel [.key, .value, .blockEnd] true true
        let value ←
          if ← accept .value then readUnless fuel [.key, .value, .blockEnd] true true
          else pure empty
        return (key, value) :: (← entries fuel)
      if ← accept .blockEnd then
        return []
      throw .unexpectedToken

def flowItems (fuel : Nat) (first : Bool) : Reading (List Node) := do
  match fuel with
  | 0 => throw .unexpectedToken
  | fuel + 1 =>
      if ← accept .flowSequenceEnd then
        return []
      unless first do expect .flowEntry
      if ← accept .flowSequenceEnd then
        return []
      if ← accept .key then
        let key ← readUnless fuel [.value, .flowEntry, .flowSequenceEnd] false false
        let value ←
          if ← accept .value then readUnless fuel [.flowEntry, .flowSequenceEnd] false false
          else pure empty
        return .mapping [(key, value)] :: (← flowItems fuel false)
      let item ← read fuel false false
      return item :: (← flowItems fuel false)

def flowEntries (fuel : Nat) (first : Bool) : Reading (List (Node × Node)) := do
  match fuel with
  | 0 => throw .unexpectedToken
  | fuel + 1 =>
      if ← accept .flowMappingEnd then
        return []
      unless first do expect .flowEntry
      if ← accept .flowMappingEnd then
        return []
      if ← accept .key then
        let key ← readUnless fuel [.value, .flowEntry, .flowMappingEnd] false false
        let value ←
          if ← accept .value then readUnless fuel [.flowEntry, .flowMappingEnd] false false
          else pure empty
        return (key, value) :: (← flowEntries fuel false)
      let key ← read fuel false false
      return (key, empty) :: (← flowEntries fuel false)

end

private def directives (fuel : Nat) (versioned : Bool) : Reading Bool := do
  match fuel with
  | 0 => return false
  | fuel + 1 =>
      match ← next? with
      | some (.version major minor) =>
          drop
          if versioned || major ≠ 1 || (minor ≠ 1 && minor ≠ 2) then
            throw .invalidDirective
          discard <| directives fuel true
          return true
      | some (.tagHandle handle expansion) =>
          drop
          if (← get).handles.any (·.1 = handle) then
            throw .invalidDirective
          modify fun state => { state with handles := (handle, expansion) :: state.handles }
          discard <| directives fuel versioned
          return true
      | _ => return false

def defaultHandles : List (Text × Text) :=
  [("!".toList, "!".toList), ("!!".toList, "tag:yaml.org,2002:".toList)]

private def dropDocumentEnds : Nat → Reading Unit
  | 0 => return ()
  | fuel + 1 => do
      if ← accept .documentEnd then
        dropDocumentEnds fuel

private def document (fuel : Nat) : Reading (Option Node) := do
  let directed ← directives fuel false
  modify fun state => { state with handles := state.handles ++ defaultHandles }
  if (← next?).isNone && !directed then
    return none
  let node ←
    if ← accept .documentStart then
      if (← next?).isNone || (← next?).any fun token => match token with
          | .version _ _ | .tagHandle _ _ | .documentStart | .documentEnd => true
          | _ => false
      then pure empty
      else read fuel true false
    else if directed then throw .unexpectedToken
    else read fuel true false
  dropDocumentEnds fuel
  if (← next?).isSome then
    throw .severalDocuments
  return some node

/-- The only document of a text, if there is one. -/
def ofText (text : Text) : Except Error (Option Node) := do
  let tokens ← Token.ofText text
  let (node, _) ← (document (4 * tokens.length + 8)).run { tokens := tokens }
  return node

end Node

end Canonmark.Yaml
