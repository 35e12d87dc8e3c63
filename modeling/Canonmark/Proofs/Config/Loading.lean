import Canonmark.Config.Configuration
import Canonmark.Files.Session
import Canonmark.Proofs.Config.File
import Canonmark.Proofs.Config.Template
import Canonmark.Proofs.Files.Path
import Mathlib.Data.List.Forall2

/-!
# Loading a configuration

A file is loaded in stages: its paths are expanded, then they are checked, and then they are put
behind the directory of the file. The first path that cannot be expanded is what is reported, also
when a path in front of it is blank. The command line comes last, and its paths are kept as they
are.
-/

namespace Canonmark.Configuration

open ConfigFile (Switch)

variable {σ : Type} {host : Host (StateM σ)} {s : σ} {environment known : Text → Option Text}
  {maps values : List Text} {path source name : Text} {file : ConfigFile}

def Expanded (environment : Text → Option Text) : (maps values : List Text) → Prop :=
  List.Forall₂ fun map value => Template.expand environment map = .ok value

/-- The variable that is missing in the first of the paths that cannot be expanded. -/
def FirstUnset (environment : Text → Option Text) (maps : List Text) (name : Text) : Prop :=
  ∃ before map after, maps = before ++ map :: after ∧
    (∃ values, Expanded environment before values) ∧
    Template.expand environment map = .error name

theorem expandAll_cases (environment : Text → Option Text) (maps : List Text) :
    (∃ values, Expanded environment maps values ∧ expandAll environment maps = .ok values) ∨
      ∃ name, FirstUnset environment maps name ∧
        expandAll environment maps = .error (.unsetVariable name) := by
  induction maps with
  | nil => exact .inl ⟨[], .nil, rfl⟩
  | cons map maps ih =>
      rw [expandAll]
      cases hfirst : Template.expand environment map with
      | error name => exact .inr ⟨name, ⟨[], map, maps, rfl, ⟨[], .nil⟩, hfirst⟩, rfl⟩
      | ok value =>
          rcases ih with ⟨values, hall, hrun⟩ |
            ⟨name, ⟨before, map', after, rfl, ⟨values, hall⟩, hunset⟩, hrun⟩
          · exact .inl ⟨value :: values, .cons hfirst hall, by rw [hrun]; rfl⟩
          · refine .inr ⟨name, ⟨map :: before, map', after, rfl, ?_, hunset⟩, by rw [hrun]; rfl⟩
            exact ⟨value :: values, .cons hfirst hall⟩

theorem expandAll_congr
    (hsame : ∀ name ∈ maps.flatMap Template.references, known name = environment name) :
    expandAll known maps = expandAll environment maps := by
  induction maps with
  | nil => rfl
  | cons map maps ih =>
      rw [List.flatMap_cons, List.forall_mem_append] at hsame
      rw [expandAll, expandAll, Template.expand_congr hsame.1, ih hsame.2]

/-- What a file at a path gives when values have taken the place of its variables. -/
def ofValues (path : Text) (file : ConfigFile) (values : List Text) : Configuration :=
  ⟨file.settings, values, values.map (Path.join ((Path.parent? path).getD ['.'])), some path⟩

theorem validate_eq_ok_iff {configuration : Configuration} :
    configuration.validate = .ok () ↔
      ∀ entry ∈ configuration.entries, Unicode.isBlank entry = false := by
  rw [validate]
  split
  · next hblank => simpa using List.any_eq_true.mp hblank
  · next hfilled => simpa using hfilled

theorem validate_of_blank {configuration : Configuration}
    (hblank : ∃ entry ∈ configuration.entries, Unicode.isBlank entry = true) :
    configuration.validate = .error .blankMap := by
  rw [validate, if_pos (List.any_eq_true.mpr hblank)]

theorem ofFile_of_expandAll (hrun : expandAll environment file.maps = .ok values) :
    ofFile environment path file =
      (ofValues path file values).validate.map fun _ => ofValues path file values := by
  have hchecks : ∀ result, (ofValues path file values).validate = result →
      ofFile environment path file = result.map fun _ => ofValues path file values := by
    intro result hchecked
    rw [ofFile, hrun]
    change ((ofValues path file values).validate >>= _) = _
    rw [hchecked]
    cases result <;> rfl
  exact hchecks _ rfl

theorem ofFile_cases (environment : Text → Option Text) (path : Text) (file : ConfigFile) :
    (∃ name, FirstUnset environment file.maps name ∧
      ofFile environment path file = .error (.unsetVariable name)) ∨
    ∃ values, Expanded environment file.maps values ∧
      ((∃ value ∈ values, Unicode.isBlank value = true) ∧
          ofFile environment path file = .error .blankMap ∨
        (∀ value ∈ values, Unicode.isBlank value = false) ∧
          ofFile environment path file = .ok (ofValues path file values)) := by
  rcases expandAll_cases environment file.maps with ⟨values, hall, hrun⟩ | ⟨name, hunset, hrun⟩
  · refine .inr ⟨values, hall, ?_⟩
    rw [ofFile_of_expandAll hrun]
    by_cases hblank : ∃ value ∈ values, Unicode.isBlank value = true
    · exact .inl ⟨hblank, by rw [validate_of_blank hblank]; rfl⟩
    · have hfilled : ∀ value ∈ values, Unicode.isBlank value = false := by simpa using hblank
      exact .inr ⟨hfilled, by rw [validate_eq_ok_iff.mpr hfilled]; rfl⟩
  · refine .inl ⟨name, hunset, ?_⟩
    rw [ofFile, hrun]
    rfl

theorem ofFile_congr
    (hsame : ∀ name ∈ file.maps.flatMap Template.references, known name = environment name) :
    ofFile known path file = ofFile environment path file := by
  rw [ofFile, ofFile, expandAll_congr hsame]

theorem run_bind {ε α β : Type} {first : ExceptT ε (StateM σ) α} {value : α}
    (h : first.run.run s = (.ok value, s)) (next : α → ExceptT ε (StateM σ) β) :
    (first >>= next).run.run s = (next value).run.run s := by
  rw [ExceptT.run_bind, StateT.run_bind, h]
  rfl

theorem run_bind_error {ε α β : Type} {first : ExceptT ε (StateM σ) α} {error : ε}
    (h : first.run.run s = (.error error, s)) (next : α → ExceptT ε (StateM σ) β) :
    (first >>= next).run.run s = (.error error, s) := by
  rw [ExceptT.run_bind, StateT.run_bind, h]
  rfl

theorem run_lift {ε α : Type} {action : StateM σ α} {value : α} (h : action.run s = (value, s)) :
    (liftM action : ExceptT ε (StateM σ) α).run.run s = (.ok value, s) := by
  change ((.ok (action.run s).1 : Except ε α), (action.run s).2) = _
  rw [h]

/-- The file that a run reads: the one that is given, or else the nearest one. -/
inductive Finds (host : Host (StateM σ)) (s : σ) : (given : Option Text) → (path : Text) → Prop
  | given {path : Text} : (host.hasEntry path).run s = (true, s) → Finds host s (some path) path
  | near {directory path : Text} : host.workingDirectory.run s = (some directory, s) →
      (discover host (Path.ancestors directory)).run s = (some path, s) → Finds host s none path

theorem Finds.run_locate {given : Option Text} (hfinds : Finds host s given path) :
    (locate host given).run.run s = (.ok (some path), s) := by
  cases hfinds with
  | given hhere => exact run_bind (run_lift hhere) _
  | near hdirectory hfound => exact (run_bind (run_lift hdirectory) _).trans (run_lift hfound)

theorem lookup_values {names : List Text} (hmem : name ∈ names) :
    (names.map fun name => (name, environment name)).lookup name = some (environment name) := by
  induction names with
  | nil => cases hmem
  | cons other names ih =>
      rw [List.map_cons, List.lookup_cons]
      by_cases hsame : name = other
      · subst hsame
        simp
      · rw [beq_eq_false_iff_ne.mpr hsame]
        exact ih ((List.mem_cons.mp hmem).resolve_left hsame)

theorem run_environmentOf
    (hlooks : ∀ name, (host.variableValue name).run s = (environment name, s))
    (names : List Text) :
    ∃ known, (environmentOf host names).run s = (known, s) ∧
      ∀ name ∈ names, known name = environment name := by
  have hvalues : (names.mapM fun name => do return (name, ← host.variableValue name)).run s =
      (names.map fun name => (name, environment name), s) := by
    induction names with
    | nil => rfl
    | cons name names ih =>
        rw [List.mapM_cons, StateT.run_bind, StateT.run_bind, hlooks]
        change StateT.run (_ >>= _) s = _
        rw [StateT.run_bind, ih]
        rfl
  refine ⟨_, by rw [environmentOf, StateT.run_bind, hvalues]; rfl, fun name hmem => ?_⟩
  rw [lookup_values hmem, Option.join_some]

theorem run_loadFile (hreads : (host.readFile path).run s = (.ok source, s))
    (hlooks : ∀ name, (host.variableValue name).run s = (environment name, s))
    (hvalid : ConfigFile.parse source = .ok file) :
    (loadFile host path).run.run s = (ofFile environment path file, s) := by
  obtain ⟨known, hrun, hsame⟩ := run_environmentOf hlooks (file.maps.flatMap Template.references)
  rw [loadFile, run_bind (run_lift hreads)]
  simp only [hvalid]
  rw [run_bind (run_lift hrun), ofFile_congr hsame]
  cases ofFile environment path file <;> rfl

theorem run_load {given : Option Text} (hfinds : Finds host s given path)
    (hreads : (host.readFile path).run s = (.ok source, s))
    (hlooks : ∀ name, (host.variableValue name).run s = (environment name, s))
    (hvalid : ConfigFile.parse source = .ok file) (overrides : Overrides) :
    (load host given overrides).run.run s =
      ((ofFile environment path file).map (override overrides), s) := by
  have hloaded := run_loadFile hreads hlooks hvalid
  rw [load, run_bind hfinds.run_locate]
  cases hmade : ofFile environment path file with
  | error error => exact run_bind_error (hmade ▸ hloaded) _
  | ok configuration => exact run_bind (hmade ▸ hloaded) _

def IsHome (path directory : Text) : Prop :=
  Path.LiesIn path directory ∨ Path.components path = [] ∧ directory = ['.']

theorem isHome (path : Text) : IsHome path ((Path.parent? path).getD ['.']) := by
  rcases Path.parent?_cases path with ⟨hnone, hnowhere⟩ | ⟨directory, hsome, hinside⟩
  · rw [hnone]
    exact .inr ⟨hnowhere, rfl⟩
  · rw [hsome]
    exact .inl hinside

/-- What a run has from a file in a directory, when values have taken the place of its variables,
and from the command line. -/
structure Loaded (path directory : Text) (file : ConfigFile) (values : List Text)
    (overrides : Overrides) (configuration : Configuration) : Prop where
  validated : configuration.validate = .ok ()
  path : configuration.path = some path
  maps : configuration.maps = values.map (Path.join directory) ++ overrides.maps
  kept : ∀ value ∈ values, Path.isAbsolute value = true ∨ directory = [] →
    Path.join directory value = value
  within : ∀ value ∈ values, Path.isAbsolute value = false → directory ≠ [] →
    Path.components (Path.join directory value) =
      Path.components directory ++ (Path.parts value).filter Path.isName
  compactHeadings : configuration.settings.compactHeadings =
    overrides.compactHeadings.getD file.settings.compactHeadings
  switches (switch : Switch) : switch ≠ .compactHeadings →
    switch.value configuration.settings = switch.value file.settings

theorem loaded_ofValues (hfilled : ∀ value ∈ values, Unicode.isBlank value = false)
    (overrides : Overrides) :
    Loaded path ((Path.parent? path).getD ['.']) file values overrides
      ((ofValues path file values).override overrides) where
  validated := validate_eq_ok_iff.mpr hfilled
  path := rfl
  maps := rfl
  kept _ _ := Path.join_kept
  within _ _ := Path.components_join
  compactHeadings := rfl
  switches switch hother := by
    cases switch with
    | compactHeadings => exact absurd rfl hother
    | spacedDestinations | tables | strikethrough | tasklists | footnotes | frontMatter => rfl

/-- A file that is a configuration is loaded in stages, and the first that fails decides: each
path has a value, no value is blank, and then the file and the command line make up the
configuration. -/
theorem load_stages {given : Option Text} (hfinds : Finds host s given path)
    (hreads : (host.readFile path).run s = (.ok source, s))
    (hlooks : ∀ name, (host.variableValue name).run s = (environment name, s))
    (hvalid : ConfigFile.parse source = .ok file) (overrides : Overrides) :
    (∃ entries, Toml.Entries.parse source = .ok entries ∧ ConfigFile.Describes entries file) ∧
      ∃ result, (load host given overrides).run.run s = (result, s) ∧
        ((∃ name, FirstUnset environment file.maps name ∧
            result = .error (.unsetVariable name)) ∨
          ∃ values, Expanded environment file.maps values ∧
            ((∃ value ∈ values, Unicode.isBlank value = true) ∧ result = .error .blankMap ∨
              (∀ value ∈ values, Unicode.isBlank value = false) ∧
                ∃ directory configuration, IsHome path directory ∧ result = .ok configuration ∧
                  Loaded path directory file values overrides configuration)) := by
  refine ⟨ConfigFile.parse_eq_ok_iff.mp hvalid, _, run_load hfinds hreads hlooks hvalid overrides,
    ?_⟩
  rcases ofFile_cases environment path file with
    ⟨name, hunset, hmade⟩ | ⟨values, hall, ⟨hblank, hmade⟩ | ⟨hfilled, hmade⟩⟩
  · exact .inl ⟨name, hunset, by rw [hmade]; rfl⟩
  · exact .inr ⟨values, hall, .inl ⟨hblank, by rw [hmade]; rfl⟩⟩
  · refine .inr ⟨values, hall, .inr ⟨hfilled, _, _, isHome path, by rw [hmade]; rfl, ?_⟩⟩
    exact loaded_ofValues hfilled overrides

/-- A path behind a variable, an absolute one, and one of the command line. -/
theorem load_stages_merged :
    let source : Text :=
      "[markup]\nlegacy_mode = true\n[xref]\nmaps = ['$\x7bA\x7d/x', '/y']\n".toList
    let session : Session :=
      { tree := { files := [(["p".toList, "rw.toml".toList], .text source)] }
        environment := [("A".toList, "v".toList)] }
    let environment : Text → Option Text := fun name => session.environment.lookup name
    let path : Text := "/p/rw.toml".toList
    let file : ConfigFile := ⟨{ compactHeadings := true }, ["$\x7bA\x7d/x".toList, "/y".toList]⟩
    let overrides : Overrides := ⟨some false, ["z".toList]⟩
    Finds Session.host session (some path) path ∧
      (Session.host.readFile path).run session = (.ok source, session) ∧
      (∀ name, (Session.host.variableValue name).run session = (environment name, session)) ∧
      ConfigFile.parse source = .ok file ∧
      ∃ configuration, (load Session.host (some path) overrides).run.run session =
          (.ok configuration, session) ∧
        configuration.maps = ["/p/v/x".toList, "/y".toList, "z".toList] ∧
        ∃ directory values, Expanded environment file.maps values ∧
          Loaded path directory file values overrides configuration := by
  intro source session environment path file overrides
  have hfinds : Finds Session.host session (some path) path := .given rfl
  have hreads : (Session.host.readFile path).run session = (.ok source, session) := rfl
  have hlooks (name : Text) :
      (Session.host.variableValue name).run session = (environment name, session) := rfl
  have hvalid : ConfigFile.parse source = .ok file := by decide +kernel
  have hmaps : ((load Session.host (some path) overrides).run.run session).1.map (·.maps) =
      .ok ["/p/v/x".toList, "/y".toList, "z".toList] := by decide +kernel
  obtain ⟨-, result, hrun, hstages⟩ := load_stages hfinds hreads hlooks hvalid overrides
  rw [hrun] at hmaps
  rcases hstages with ⟨name, -, rfl⟩ | ⟨values, hall, ⟨-, rfl⟩
    | ⟨-, directory, configuration, -, rfl, hloaded⟩⟩
  · cases hmaps
  · cases hmaps
  · exact ⟨hfinds, hreads, hlooks, hvalid, configuration, hrun, Except.ok.inj hmaps, directory,
      values, hall, hloaded⟩

end Canonmark.Configuration
