import Canonmark.Config.File
import Canonmark.Config.Template
import Canonmark.Files.Host
import Canonmark.Files.Path

/-!
# Configurations

The configuration of a run: that of a file, if there is one, with what the command line overrides.
The file is given, or it is the nearest one in the working directory and those around it.
-/

namespace Canonmark

structure Overrides where
  compactHeadings : Option Bool := none
  maps : List Text := []
  deriving DecidableEq, Inhabited, Repr

structure Configuration where
  settings : Settings := {}
  /-- The paths of the catalogs of the file, as they are written there but for variables. -/
  entries : List Text := []
  /-- The paths of all catalogs, in the order in which they are merged. -/
  maps : List Text := []
  path : Option Text := none
  deriving DecidableEq, Inhabited, Repr

inductive ConfigError where
  | notFound (path : Text)
  | unreadable (error : IoError)
  | malformed (error : ConfigFileError)
  | blankMap
  | unsetVariable (name : Text)
  deriving DecidableEq, Inhabited, Repr

namespace ConfigError

def message : ConfigError → Text
  | .notFound path => "Configuration file not found: ".toList ++ path
  | .unreadable error => "I/O error: ".toList ++ error.message
  | .malformed _ => "TOML parse error".toList
  | .blankMap => "Configuration error: xref.maps entries cannot be empty".toList
  | .unsetVariable name =>
      "Environment variable error in xref.maps: $\x7b".toList ++ name ++ "\x7d not set".toList

end ConfigError

namespace Configuration

def expandAll (environment : Text → Option Text) :
    List Text → Except ConfigError (List Text)
  | [] => .ok []
  | map :: rest =>
      match Template.expand environment map with
      | .error name => .error (.unsetVariable name)
      | .ok first => (expandAll environment rest).map (first :: ·)

def validate (configuration : Configuration) : Except ConfigError Unit :=
  if configuration.entries.any Unicode.isBlank then .error .blankMap else .ok ()

def resolve (directory : Text) (configuration : Configuration) : Configuration :=
  { configuration with maps := configuration.entries.map (Path.join directory) }

/-- The configuration of a file at a path, whose directory the paths in it start from. -/
def ofFile (environment : Text → Option Text) (path : Text) (file : ConfigFile) :
    Except ConfigError Configuration := do
  let configuration : Configuration :=
    { settings := file.settings, entries := ← expandAll environment file.maps }
  configuration.validate
  return { configuration.resolve ((Path.parent? path).getD ['.']) with path := some path }

/-- The command line decides, and its catalogs come last. -/
def override (overrides : Overrides) (configuration : Configuration) : Configuration :=
  { configuration with
    settings :=
      { configuration.settings with
        compactHeadings :=
          overrides.compactHeadings.getD configuration.settings.compactHeadings }
    maps := configuration.maps ++ overrides.maps }

variable {m : Type → Type} [Monad m]

def fileName : Text := "rw.toml".toList

def discover (host : Host m) : List Text → m (Option Text)
  | [] => return none
  | directory :: rest => do
      let candidate := Path.join directory fileName
      if ← host.hasEntry candidate then
        return some candidate
      else
        discover host rest

def locate (host : Host m) (given : Option Text) : ExceptT ConfigError m (Option Text) := do
  match given with
  | some path =>
      if ← host.hasEntry path then
        return some path
      else
        throw (.notFound path)
  | none =>
      match ← host.workingDirectory with
      | some directory => (discover host (Path.ancestors directory) : m (Option Text))
      | none => return none

def environmentOf (host : Host m) (names : List Text) : m (Text → Option Text) := do
  let values ← names.mapM fun name => do
    return (name, ← host.variableValue name)
  return fun name => (values.lookup name).join

def loadFile (host : Host m) (path : Text) : ExceptT ConfigError m Configuration := do
  match ← host.readFile path with
  | .error error => throw (.unreadable error)
  | .ok source =>
      match ConfigFile.parse source with
      | .error error => throw (.malformed error)
      | .ok file =>
          let environment ←
            (environmentOf host (file.maps.flatMap Template.references) : m (Text → Option Text))
          match ofFile environment path file with
          | .ok configuration => return configuration
          | .error error => throw error

def load (host : Host m) (given : Option Text) (overrides : Overrides) :
    ExceptT ConfigError m Configuration := do
  match ← locate host given with
  | some path => return (← loadFile host path).override overrides
  | none => return override overrides {}

end Configuration

end Canonmark
