import Canonmark.Text.Basic

/-!
# Arguments

What the words of a command line ask for. Switches are given at most once; a word that starts with
a hyphen is no value, unless it is a hyphen alone or stands behind two of them.
-/

namespace Canonmark

structure Arguments where
  /-- Without files the input is read. -/
  files : List Text := []
  inPlace : Bool := false
  check : Bool := false
  legacy : Bool := false
  noLegacy : Bool := false
  maps : List Text := []
  config : Option Text := none
  verbose : Bool := false
  deriving DecidableEq, Inhabited, Repr

inductive Refusal where
  | usage
  | help
  | version
  deriving DecidableEq, Inhabited, Repr

namespace Arguments

inductive Switch where
  | inPlace
  | check
  | legacy
  | noLegacy
  | verbose
  deriving DecidableEq, Repr

inductive OptionName where
  | switch (switch : Switch)
  | map
  | config
  | help
  deriving DecidableEq, Repr

private def long? (name : Text) : Option OptionName :=
  [("in-place", OptionName.switch .inPlace), ("check", .switch .check), ("legacy", .switch .legacy),
    ("no-legacy", .switch .noLegacy), ("verbose", .switch .verbose), ("xref-map", .map),
    ("config", .config), ("help", .help)].lookup (String.ofList name)

private def short? : Char → Option OptionName
  | 'i' => some (.switch .inPlace)
  | 'v' => some (.switch .verbose)
  | 'x' => some .map
  | 'c' => some .config
  | 'h' => some .help
  | _ => none

abbrev Parsed := Except Refusal Arguments

private def once (given : Bool) (arguments : Arguments) : Parsed :=
  if given then .error .usage else .ok arguments

private def turnOn (arguments : Arguments) : Switch → Parsed
  | .inPlace => once arguments.inPlace { arguments with inPlace := true }
  | .check => once arguments.check { arguments with check := true }
  | .legacy => once arguments.legacy { arguments with legacy := true }
  | .noLegacy => once arguments.noLegacy { arguments with noLegacy := true }
  | .verbose => once arguments.verbose { arguments with verbose := true }

private def addValue (arguments : Arguments) (option : OptionName) (value : Text) : Parsed :=
  if value.isEmpty then .error .usage
  else
    match option with
    | .map => .ok { arguments with maps := arguments.maps ++ [value] }
    | .config => once arguments.config.isSome { arguments with config := some value }
    | _ => .error .usage

private def addFile (arguments : Arguments) (path : Text) : Parsed :=
  if path.isEmpty then .error .usage
  else .ok { arguments with files := arguments.files ++ [path] }

structure State where
  arguments : Arguments := {}
  pending : Option OptionName := none
  plain : Bool := false

private def isOption (word : Text) : Bool := word.head? = some '-' && 1 < word.length

private def readLong (state : State) (word : Text) : Except Refusal State := do
  let (name, value) :=
    match Text.splitAtFirst? '=' word with
    | some (name, value) => (name, some value)
    | none => (word, none)
  match long? name, value with
  | some .help, none => throw .help
  | some (.switch switch), none =>
      return { state with arguments := ← turnOn state.arguments switch }
  | some .map, none => return { state with pending := some .map }
  | some .config, none => return { state with pending := some .config }
  | some option, some value =>
      return { state with arguments := ← addValue state.arguments option value }
  | none, _ => throw .usage

/-- The letters behind a hyphen; one that has a value takes the others for it. -/
private def readShort (state : State) : Text → Except Refusal State
  | [] => .ok state
  | c :: rest =>
      match short? c with
      | none => .error .usage
      | some .help => .error .help
      | some (.switch switch) =>
          match turnOn state.arguments switch with
          | .ok arguments => readShort { state with arguments := arguments } rest
          | .error refusal => .error refusal
      | some option =>
          match rest with
          | [] => .ok { state with pending := some option }
          | '=' :: value =>
              (addValue state.arguments option value).map fun arguments =>
                { state with arguments := arguments }
          | value =>
              (addValue state.arguments option value).map fun arguments =>
                { state with arguments := arguments }

private def readWord (state : State) (word : Text) : Except Refusal State := do
  match state.pending with
  | some option =>
      if isOption word then
        throw .usage
      return { state with arguments := ← addValue state.arguments option word, pending := none }
  | none =>
      if state.plain || !isOption word then
        return { state with arguments := ← addFile state.arguments word }
      if word = ['-', '-'] then
        return { state with plain := true }
      match word with
      | '-' :: '-' :: name => readLong state name
      | _ => readShort state (word.drop 1)

def parse (words : List Text) : Parsed := do
  let state ← words.foldlM readWord {}
  let arguments := state.arguments
  if state.pending.isSome || (arguments.inPlace && arguments.check)
      || (arguments.legacy && arguments.noLegacy) then
    throw .usage
  return arguments

end Arguments

namespace CommandLine

def isCommand (word : Text) : Bool := word = "rewrite".toList || word = "help".toList

def parse : List Text → Except Refusal Arguments
  | [] => .error .usage
  | word :: rest =>
      if word = "rewrite".toList then Arguments.parse rest
      else if word = "help".toList then
        match rest with
        | [] => .error .help
        | [command] => .error (if isCommand command then .help else .usage)
        | _ => .error .usage
      else if word = "--help".toList then .error .help
      else if word = "--version".toList then .error .version
      else
        match word with
        | '-' :: 'h' :: _ => .error .help
        | '-' :: 'V' :: _ => .error .version
        | _ => .error .usage

end CommandLine

end Canonmark
