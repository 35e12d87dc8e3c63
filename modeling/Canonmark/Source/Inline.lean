import Canonmark.Source.Definition
import Canonmark.Source.Event
import Canonmark.Source.Token

/-!
# Inline structure

The tokens of a block become a forest in two passes. The first one runs from left to right and
settles code spans, angle brackets and links, which reach as far as the text allows. The second
one pairs the delimiters that are left among the same siblings.
-/

namespace Canonmark.Source

structure Run where
  char : Char
  size : Nat
  opens : Bool
  closes : Bool
  deriving DecidableEq, Inhabited, Repr

inductive InlineNode where
  | atom (content : InlineAtom) (span : Span)
  | run (run : Run) (span : Span)
  | hardBreak (backslash : Bool) (span : Span)
  | group (tag : InlineTag) (span : Span) (children : List InlineNode)
  deriving Inhabited, Repr

structure InlineContext where
  extensions : Extensions
  containers : List Container
  definitions : List Definition
  footnotes : List Text
  /-- The text of the block, which starts at `base` in the source. -/
  text : Text
  base : Nat
  deriving Inhabited

namespace InlineContext

def textAt (context : InlineContext) (position : Nat) : Text :=
  context.text.drop (position - context.base)

def slice (context : InlineContext) (span : Span) : Text :=
  (context.textAt span.start).take (span.stop - span.start)

def markers (context : InlineContext) : Text → Nat := markersLength context.containers

end InlineContext

namespace LinkTail

def maxNesting : Nat := 32

def space (context : InlineContext) (text : Text) : Nat :=
  let blanks := countWhile Ascii.isBlank text
  match eol? (text.drop blanks) with
  | none => blanks
  | some n =>
      let start := blanks + n + context.markers (text.drop (blanks + n))
      start + countWhile Ascii.isBlank (text.drop start)

/-- The tokens behind `position`, the first of which may start before it. -/
def tokensFrom (position : Nat) (tokens : List Token) : List Token :=
  tokens.dropWhile (·.span.stop ≤ position)

/--
Adds the character `c` at `position`, or what it stands for, to a title. Behind a line break the
title goes on with the first token of the next line.
-/
def titleStep (context : InlineContext) (tokens : List Token) (kept : Text)
    (position : Nat) (c : Char) (rest : Text) : Text × Nat × Text :=
  let plain := (c :: kept, position + 1, rest)
  if c = '\n' || c = '\r' then
    match tokensFrom (position + 1) tokens with
    | ⟨_, span⟩ :: _ =>
        if position < span.start then ('\n' :: kept, span.start, context.textAt span.start)
        else plain
    | [] => plain
  else if c = '&' then
    match Entity.reference? rest with
    | some (n, value) => (value.reverse ++ kept, position + 1 + n, rest.drop n)
    | none => plain
  else if c = '\\' then
    match rest with
    | d :: tail => if Ascii.isPunctuation d then (d :: kept, position + 2, tail) else plain
    | [] => plain
  else plain

/--
Reads a title up to its closing quote. The title so far is `kept`, latest first; the result adds
the position behind it.
-/
def titleFrom? (context : InlineContext) (tokens : List Token) (start close : Char) :
    Nat → (kept : Text) → (position : Nat) → Text → Option (Text × Nat)
  | 0, _, _, _ => none
  | fuel + 1, kept, position, text =>
      match text with
      | [] => none
      | c :: rest =>
          if c = close then some (kept.reverse, position + 1)
          else if c = start then none
          else
            let (kept, position, rest) := titleStep context tokens kept position c rest
            titleFrom? context tokens start close fuel kept position rest

def title? (context : InlineContext) (tokens : List Token) (position : Nat) :
    Text → Option (Text × Nat)
  | [] => none
  | c :: rest =>
      if c = '"' || c = '\'' || c = '(' then
        titleFrom? context tokens c (if c = '(' then ')' else c) (rest.length + 1) []
          (position + 1) rest
      else none

def read? (context : InlineContext) (tokens : List Token) (position : Nat) :
    Option (Text × Text × Nat) :=
  match context.textAt position with
  | '(' :: inner =>
      let start := position + 1 + space context inner
      (Destination.scan? maxNesting (context.textAt start)).bind fun (written, size) =>
        let behind := start + size
        let gap := behind + space context (context.textAt behind)
        let (title, stop) :=
          match title? context tokens gap (context.textAt gap) with
          | some (title, stop) => (title, stop + space context (context.textAt stop))
          | none => ([], gap)
        match context.textAt stop with
        | ')' :: _ => some (Escape.resolve written, title, stop + 1)
        | _ => none
  | _ => none

end LinkTail

inductive ReferenceLabel where
  | link (label : Text)
  | footnote (label : Text)
  deriving DecidableEq, Inhabited, Repr

def referenceLabel? (context : InlineContext) (text : Text) : Option (ReferenceLabel × Nat) :=
  let plain (text : Text) : Option (ReferenceLabel × Nat) :=
    (Label.scan? (fun line => some (context.markers line)) text).map fun (label, n) =>
      (.link label, n + 1)
  match text with
  | '[' :: '^' :: rest =>
      if context.extensions.footnotes && rest.head?.any (· ≠ ']') then
        match Label.scan? (fun _ => none) rest with
        | some (label, n) => some (.footnote label, n + 2)
        | none => plain ('^' :: rest)
      else plain ('^' :: rest)
  | '[' :: rest => plain rest
  | _ => none

/-! ## First pass -/

/-- An opening bracket that waits for its partner, and the nodes before it, latest first. -/
structure OpenBracket where
  image : Bool
  /-- A bracket in front of a link opens no link itself. -/
  active : Bool
  span : Span
  before : List InlineNode
  deriving Inhabited

/-- Nodes behind the latest open bracket, latest first. References may copy `budget` bytes. -/
structure LinkState where
  brackets : List OpenBracket := []
  nodes : List InlineNode := []
  budget : Nat
  deriving Inhabited

namespace LinkState

def push (node : InlineNode) (state : LinkState) : LinkState :=
  { state with nodes := node :: state.nodes }

def textNode (context : InlineContext) (span : Span) : InlineNode :=
  .atom (.text (context.slice span)) span

def pushText (context : InlineContext) (span : Span) (state : LinkState) : LinkState :=
  state.push (textNode context span)

def flatten (context : InlineContext) (state : LinkState) : LinkState :=
  match state.brackets with
  | [] => state
  | bracket :: brackets =>
      { state with
        brackets := brackets
        nodes := state.nodes ++ textNode context bracket.span :: bracket.before }

def flattenAll (context : InlineContext) (state : LinkState) : LinkState :=
  state.brackets.foldl (fun state _ => state.flatten context) state

def makeLink (form : LinkForm) (destination title : Text) (stop : Nat)
    (state : LinkState) : LinkState :=
  match state.brackets with
  | [] => state
  | bracket :: brackets =>
      let node := InlineNode.group (.link bracket.image form destination title)
        (.upTo bracket.span.start stop) state.nodes.reverse
      let brackets :=
        if bracket.image then brackets
        else brackets.map fun bracket => { bracket with active := bracket.active && bracket.image }
      { state with brackets := brackets, nodes := node :: bracket.before }

def makeFootnote (context : InlineContext) (stop : Nat) (state : LinkState) :
    LinkState :=
  match state.brackets with
  | [] => state
  | bracket :: brackets =>
      let start := bracket.span.start
      let nodes :=
        if bracket.image then
          [.atom .footnoteReference (.upTo (start + 1) stop), textNode context (.ofLength start 1)]
        else [InlineNode.atom .footnoteReference (.upTo start stop)]
      flattenAll context { state with brackets := brackets, nodes := nodes ++ bracket.before }

end LinkState

/-- Tokens from `position` on; one that starts before it is cut there. -/
def cutTokens (position : Nat) (tokens : List Token) : List Token :=
  match LinkTail.tokensFrom position tokens with
  | ⟨mark, span⟩ :: rest => ⟨mark, .upTo (max span.start position) span.stop⟩ :: rest
  | [] => []

/-- The definition of a label, while references may still copy text. -/
def lookUp? (context : InlineContext) (label : Text) (state : LinkState) :
    Option Definition :=
  if state.budget = 0 then none else Definition.find? context.definitions label

def spend (definition : Definition) (state : LinkState) : LinkState :=
  let cost := Text.utf8Size definition.destination + Text.utf8Size definition.title
  { state with budget := state.budget - cost }

def labelled? (context : InlineContext) (label : Text) (stop : Nat)
    (state : LinkState) : Option LinkState :=
  (lookUp? context label state).map fun definition =>
    (spend definition state).makeLink .labelled definition.destination definition.title stop

def angle? (context : InlineContext) (span next : Span) : Option (InlineNode × Nat) :=
  let text := context.textAt next.start
  let link (form : LinkForm) (target : Text) : InlineNode × Nat :=
    let stop := next.start + target.length + 1
    let inner := Span.upTo (span.start + 1) (stop - 1)
    (.group (.link false form target []) (.upTo span.start stop)
      [.atom (.text (context.slice inner)) inner], stop)
  match Autolink.uri? text with
  | some uri => some (link .autolink uri)
  | none =>
      match Autolink.address? text with
      | some address => some (link .mail address)
      | none =>
          (inlineHtml? context.markers text).map fun (n, cut) =>
            let stop := next.start + n
            let html := match cut with
              | some kept => '<' :: kept
              | none => context.slice (.upTo span.start stop)
            (.atom (.inlineHtml html) (.upTo span.start stop), stop)

def closingBackticks? (size : Nat) : List Token → Option (Span × List Token)
  | [] => none
  | ⟨.backticks other _, span⟩ :: rest =>
      if other = size then some (span, rest) else closingBackticks? size rest
  | _ :: rest => closingBackticks? size rest

/-- The text of code, with a space for each line break and the container markers behind it. -/
def codeText (markers : Text → Nat) : (skipped : Nat) → Text → Text
  | _, [] => []
  | skipped + 1, _ :: rest => codeText markers skipped rest
  | 0, c :: rest =>
      if c = '\n' || c = '\r' then ' ' :: codeText markers (markers rest) rest
      else c :: codeText markers 0 rest

/-- Code between two spaces goes without these, unless it is all spaces. -/
def trimCode (text : Text) : Text :=
  if text.head? = some ' ' && text.getLast? = some ' ' && !text.all (· = ' ') then
    text.tail.dropLast
  else text

def backticks (context : InlineContext) (size : Nat) (escaped : Bool) (span : Span)
    (rest : List Token) (state : LinkState) : LinkState × List Token :=
  let needed := if escaped then size - 1 else size
  match if needed = 0 then none else closingBackticks? needed rest with
  | none => (state.pushText context span, rest)
  | some (close, behind) =>
      let start := if escaped then span.start + 1 else span.start
      let state := if escaped then state.pushText context (.upTo span.start start) else state
      let text :=
        trimCode (codeText context.markers 0 (context.slice (.upTo span.stop close.start)))
      (state.push (.atom (.code text) (.upTo start close.stop)), behind)

/-- Forbids the token that ends at `stop` to end another reference. -/
def barReference (stop : Nat) : List Token → List Token
  | [] => []
  | token :: rest =>
      if token.span.stop ≤ stop - 1 then token :: barReference stop rest
      else { token with mark := .closingBracket false } :: rest

def enclosedLabel? (context : InlineContext) (start stop : Nat) :
    Option ReferenceLabel :=
  (referenceLabel? context (context.slice (.upTo start stop))).bind fun (label, n) =>
    if start + n = stop then some label else none

/-- Settles a closing bracket whose partner is not followed by a link tail. -/
def reference (context : InlineContext) (bracket : OpenBracket) (refers : Bool)
    (span : Span) (rest : List Token) (state : LinkState) : LinkState × List Token :=
  let plain (rest : List Token) : LinkState × List Token :=
    ((state.flatten context).pushText context span, rest)
  let ownLabel (behind : List Token) : LinkState × List Token :=
    if !refers then plain rest
    else
      match enclosedLabel? context (bracket.span.stop - 1) span.stop with
      | none => plain rest
      | some (.footnote label) =>
          if context.footnotes.contains (Label.key label) then
            (state.makeFootnote context span.stop, rest)
          else plain rest
      | some (.link label) =>
          match labelled? context label span.stop state with
          | some state => (state, behind)
          | none => plain rest
  match rest with
  | [] => ownLabel []
  | next :: _ =>
      let text := context.textAt next.span.start
      if ['[', ']'].isPrefixOf text then ownLabel (rest.drop 2)
      else
        match referenceLabel? context text with
        | some (.link label, n) =>
            let stop := next.span.start + n
            match LinkTail.tokensFrom (stop - 1) rest with
            | [] => plain rest
            | _ :: behind =>
                match labelled? context label stop state with
                | some state => (state, behind)
                | none => plain (barReference stop rest)
        | _ => ownLabel rest

def closingBracket (context : InlineContext) (refers : Bool) (span : Span)
    (rest : List Token) (state : LinkState) : LinkState × List Token :=
  match state.brackets with
  | [] => (state.pushText context span, rest)
  | bracket :: _ =>
      if !bracket.active then ((state.flatten context).pushText context span, rest)
      else
        match LinkTail.read? context rest span.stop with
        | some (destination, title, stop) =>
            (state.makeLink .direct destination title stop, cutTokens stop rest)
        | none => reference context bracket refers span rest state

def settle (context : InlineContext) (token : Token) (rest : List Token)
    (state : LinkState) : LinkState × List Token :=
  let span := token.span
  let opening (image : Bool) : LinkState :=
    { state with brackets := ⟨image, true, span, state.nodes⟩ :: state.brackets, nodes := [] }
  match token.mark with
  | .text => (state.pushText context span, rest)
  | .entity value => (state.push (.atom (.text value) span), rest)
  | .softBreak => (state.push (.atom .softBreak span), rest)
  | .hardBreak backslash => (state.push (.hardBreak backslash span), rest)
  | .task checked => (state.push (.atom (.task checked) span), rest)
  | .delimiters char size opens closes =>
      (state.push (.run ⟨char, size, opens, closes⟩ span), rest)
  | .bracket => (opening false, rest)
  | .imageBracket => (opening true, rest)
  | .backticks size escaped => backticks context size escaped span rest state
  | .closingBracket refers => closingBracket context refers span rest state
  | .angle =>
      match rest with
      | [] => (state.pushText context span, rest)
      | next :: _ =>
          match angle? context span next.span with
          | some (node, stop) => (state.push node, cutTokens stop rest)
          | none => (state.pushText context span, rest)

def settleAll (context : InlineContext) : Nat → LinkState → List Token → LinkState
  | 0, state, _ => state
  | _, state, [] => state
  | fuel + 1, state, token :: rest =>
      let (state, rest) := settle context token rest state
      settleAll context fuel state rest

/-! ## Second pass -/

namespace Emphasis

/-- A run that may open emphasis: what is left of it, and the nodes before it, latest first. -/
structure Opener where
  char : Char
  left : Nat
  /-- Size of the run as written. -/
  size : Nat
  /-- The run might as well close emphasis. -/
  both : Bool
  start : Nat
  before : List InlineNode
  deriving Inhabited

structure State where
  openers : List Opener := []
  nodes : List InlineNode := []
  /-- Openers below this height were passed over by a run of tildes, and match none any more. -/
  floor : Nat := 0
  deriving Inhabited

def runText (context : InlineContext) (start size : Nat) : InlineNode :=
  .atom (.text (context.slice (.ofLength start size))) (.ofLength start size)

/-- Runs that could both open and close only match if their sizes do not add up to three. -/
def fits (char : Char) (size : Nat) (both : Bool) (opener : Opener) : Bool :=
  opener.char = char && (char ≠ '~' || opener.size = size)
    && ((!both && !opener.both) || (size + opener.size) % 3 ≠ 0 || size % 3 = 0)

def find? (char : Char) (size : Nat) (both : Bool) (floor : Nat) :
    (height : Nat) → (passed : List Opener) → List Opener →
      Option (List Opener × Opener × List Opener)
  | _, _, [] => none
  | height, passed, opener :: openers =>
      if height ≤ floor then none
      else if fits char size both opener then some (passed.reverse, opener, openers)
      else find? char size both floor (height - 1) (opener :: passed) openers

def flatten (context : InlineContext) (openers : List Opener)
    (nodes : List InlineNode) : List InlineNode :=
  openers.foldl (fun nodes opener =>
    nodes ++ runText context opener.start opener.left :: opener.before) nodes

def tag (char : Char) (width : Nat) : InlineTag :=
  if char = '~' then .strike else if width = 2 then .strong else .emphasis

/--
Wraps nodes in the emphasis of `left` delimiters on each side, in twos first. The inner ends of
the delimiters stand at `start` and `stop`.
-/
def wrap (char : Char) : (left start stop : Nat) → List InlineNode → List InlineNode
  | 0, _, _, nodes => nodes
  | 1, start, stop, nodes => [.group (tag char 1) (.upTo (start - 1) (stop + 1)) nodes]
  | left + 2, start, stop, nodes =>
      wrap char left (start - 2) (stop + 2) [.group (tag char 2) (.upTo (start - 2) (stop + 2))
      nodes]

/-- Closes emphasis with up to `left` delimiters from `start` on; those left over are returned. -/
def close (context : InlineContext) (run : Run) :
    Nat → (left start : Nat) → State → Nat × Nat × State
  | 0, left, start, state => (left, start, state)
  | fuel + 1, left, start, state =>
      let both := run.opens && run.closes
      let height := state.openers.length
      let tilde := run.char = '~'
      match find? run.char run.size both (if tilde then state.floor else 0) height []
          state.openers with
      | none => (left, start, if tilde then { state with floor := height } else state)
      | some (above, opener, below) =>
          let inner := (flatten context above state.nodes).reverse
          let used := min left opener.left
          let nodes := wrap run.char used (opener.start + opener.left) start inner
          let floor := min state.floor below.length
          let state : State :=
            if opener.left = used then ⟨below, nodes ++ opener.before, floor⟩
            else ⟨{ opener with left := opener.left - used } :: below, nodes, floor⟩
          if left = used then (0, start + used, state)
          else close context run fuel (left - used) (start + used) state

/-- Takes one more sibling; `last` tells whether none follows. -/
def step (context : InlineContext) (last : Bool) (node : InlineNode) (state : State) :
    State :=
  match node with
  | .run run span =>
      let (left, start, state) :=
        if run.closes then close context run run.size run.size span.start state
        else (run.size, span.start, state)
      if left = 0 then state
      else if run.opens then
        let opener : Opener :=
          ⟨run.char, left, run.size, run.opens && run.closes, start, state.nodes⟩
        { state with openers := opener :: state.openers, nodes := [] }
      else { state with nodes := runText context start left :: state.nodes }
  | .hardBreak backslash span =>
      if !last then { state with nodes := node :: state.nodes }
      else if backslash then
        { state with nodes := .atom (.text ['\\']) span :: state.nodes }
      else state
  | _ => { state with nodes := node :: state.nodes }

def steps (context : InlineContext) : State → List InlineNode → State
  | state, [] => state
  | state, node :: rest => steps context (step context rest.isEmpty node state) rest

def isRun : InlineNode → Bool
  | .run _ _ => true
  | _ => false

def resolve (context : InlineContext) (nodes : List InlineNode) : List InlineNode :=
  if nodes.any isRun then
    let state := steps context {} nodes
    (flatten context state.openers state.nodes).reverse
  else nodes

mutual

def resolveInside (context : InlineContext) : InlineNode → InlineNode
  | .group tag span children =>
      .group tag span (resolve context (resolveInsides context children))
  | node => node

def resolveInsides (context : InlineContext) : List InlineNode → List InlineNode
  | [] => []
  | node :: rest => resolveInside context node :: resolveInsides context rest

end

end Emphasis

namespace InlineNode

def ofTokens (context : InlineContext) (budget : Nat) (tokens : List Token) :
    List InlineNode × Nat :=
  let state := settleAll context (tokens.length + 1) { budget := budget } tokens
  let nodes := (state.flattenAll context).nodes.reverse
  (Emphasis.resolve context (Emphasis.resolveInsides context nodes), state.budget)

mutual

def events : InlineNode → List Located
  | .atom content span => [(content.event, span)]
  | .run _ span => [(.text [], span)]
  | .hardBreak _ span => [(.hardBreak, span)]
  | .group tag span children => (.enter tag.tag, span) :: eventsOf children ++ [(.leave, span)]

def eventsOf : List InlineNode → List Located
  | [] => []
  | node :: rest => events node ++ eventsOf rest

end

end InlineNode

end Canonmark.Source
