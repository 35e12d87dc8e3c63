import Canonmark.Canonical.Source
import Canonmark.Command.Arguments
import Canonmark.Config.Configuration
import Canonmark.Reference.CatalogLoad

/-!
# Running commands

A run loads the configuration and the catalogs, and then makes the files or the input canonical.
Files are printed, written back or only checked. The result is an exit code.
-/

namespace Canonmark

inductive CommandError where
  | config (error : ConfigError)
  | unreadable (error : IoError)
  | catalog (error : CatalogLoadError)
  | notCanonical (count : Nat)
  deriving DecidableEq, Inhabited, Repr

namespace CommandError

def message : CommandError → Text
  | .config error => error.message
  | .unreadable error => error.message
  | .catalog error => error.message
  | .notCanonical count => Ascii.ofNat count ++ " file(s) not in canonical form".toList

end CommandError

namespace Command

def version : Text := "rw 0.1.24".toList

def help : Text :=
  "Usage: rw rewrite [--in-place | --check] [--legacy | --no-legacy] [--xref-map PATH]...".toList
    ++ " [--config PATH] [--verbose] [FILES]...".toList

inductive Mode where
  | print
  | inPlace
  | check
  deriving DecidableEq, Inhabited, Repr

def Mode.ofArguments (arguments : Arguments) : Mode :=
  if arguments.check then .check else if arguments.inPlace then .inPlace else .print

def overrides (arguments : Arguments) : Overrides where
  compactHeadings :=
    if arguments.noLegacy then some false else if arguments.legacy then some true else none
  maps := arguments.maps

def inputPath : Text := "<stdin>".toList

structure Engine where
  settings : Settings
  resolver : Resolver

def Engine.markup (engine : Engine) (path text : Text) : Text :=
  (Canonical.source engine.settings ⟨engine.resolver, path⟩ text).value

variable {m : Type → Type} [Monad m]

abbrev Run (m : Type → Type) := ExceptT CommandError m

def attempt {ε α : Type} (wrap : ε → CommandError) (action : ExceptT ε m α) : Run m α :=
  ExceptT.mk do
    match ← action.run with
    | .ok value => return .ok value
    | .error error => return .error (wrap error)

def attemptHost {α : Type} (action : m (Except IoError α)) : Run m α :=
  attempt .unreadable (ExceptT.mk action)

def reportLine (host : Host m) (text : Text) : m Unit := host.report (text ++ ['\n'])

def deliver (host : Host m) (path canonical : Text) (changed : Bool) : Mode → Run m Unit
  | .print => attemptHost (host.print canonical)
  | .inPlace => if changed then attemptHost (host.writeFile path canonical) else pure ()
  | .check => pure ()

def processFile (host : Host m) (engine : Engine) (mode : Mode) (path : Text) : Run m Bool := do
  let source ← attemptHost (host.readFile path)
  let canonical := engine.markup path source
  let changed : Bool := canonical ≠ source
  deliver host path canonical changed mode
  return changed

def changeNote (mode : Mode) (path : Text) : Text :=
  (if mode = .inPlace then "Rewrote ".toList else "Would rewrite ".toList) ++ path

/-- Makes files canonical in order; the result counts those that it changes. -/
def processFiles (host : Host m) (engine : Engine) (mode : Mode) : List Text → Run m Nat
  | [] => return 0
  | path :: rest => do
      let changed ← processFile host engine mode path
      if changed && mode ≠ .print then
        (reportLine host (changeNote mode path) : m Unit)
      let others ← processFiles host engine mode rest
      return (if changed then 1 else 0) + others

def processInput (host : Host m) (engine : Engine) (mode : Mode) : Run m Unit := do
  let source ← attemptHost host.readInput
  let canonical := engine.markup inputPath source
  match mode with
  | .check =>
      if canonical ≠ source then
        throw (.notCanonical 1)
  | _ => attemptHost (host.print canonical)

def summary (files changed : Nat) : Text :=
  Ascii.ofNat files ++ " file(s) checked, ".toList ++ Ascii.ofNat changed
    ++ " not in canonical form".toList

def load (host : Host m) (arguments : Arguments) : Run m Engine := do
  let configuration ←
    attempt .config (Configuration.load host arguments.config (overrides arguments))
  let catalog ← attempt .catalog (Catalog.loadAll host configuration.maps)
  return ⟨configuration.settings, catalog.resolver⟩

def canonicalizeFiles (host : Host m) (engine : Engine) (mode : Mode) (files : List Text) :
    Run m Unit := do
  let changed ← processFiles host engine mode files
  if mode ≠ .print then
    (reportLine host (summary files.length changed) : m Unit)
  if mode = .check && 0 < changed then
    throw (.notCanonical changed)

def canonicalize (host : Host m) (arguments : Arguments) : Run m Unit := do
  let mode := Mode.ofArguments arguments
  let engine ← load host arguments
  if arguments.files.isEmpty then processInput host engine mode
  else canonicalizeFiles host engine mode arguments.files

def exitCode (host : Host m) : Except CommandError Unit → m Nat
  | .ok () => return 0
  | .error error => do
      reportLine host ("Error: ".toList ++ error.message)
      return 1

def run (host : Host m) (words : List Text) : m Nat := do
  match CommandLine.parse words with
  | .error .usage =>
      reportLine host help
      return 2
  | .error .help =>
      discard (host.print (help ++ ['\n']))
      return 0
  | .error .version =>
      discard (host.print (version ++ ['\n']))
      return 0
  | .ok arguments => exitCode host (← (canonicalize host arguments).run)

end Command

end Canonmark
