import Canonmark.Command.Run
import Canonmark.Proofs.Files.Disk

/-!
# Making files canonical

A run makes the files on its command line canonical one after the other. What an argument meets is
what the arguments before it have left, so that a file that is given twice is made canonical twice.
Only a run in place changes files, and only those that it was given. The first argument that cannot
be read or written ends the run.
-/

namespace Canonmark.Command

variable {σ α β : Type} {host : Host (StateM σ)} {disk : Disk σ} {engine : Engine} {mode : Mode}

def outcome (action : Run (StateM σ) α) (s : σ) : Except CommandError α × σ := action.run.run s

theorem outcome_bind (action : Run (StateM σ) α) (next : α → Run (StateM σ) β) (s : σ) :
    outcome (action >>= next) s =
      match outcome action s with
      | (.ok value, s') => outcome (next value) s'
      | (.error error, s') => (.error error, s') := by
  simp only [outcome, ExceptT.run, bind, ExceptT.bind, ExceptT.mk, StateT.bind, StateT.run,
    ExceptT.bindCont]
  rcases action s with ⟨result, s'⟩
  cases result <;> rfl

theorem outcome_bind_ok {action : Run (StateM σ) α} {value : α} {s s' : σ}
    (h : outcome action s = (.ok value, s')) (next : α → Run (StateM σ) β) :
    outcome (action >>= next) s = outcome (next value) s' := by
  rw [outcome_bind, h]

theorem outcome_bind_error {action : Run (StateM σ) α} {error : CommandError} {s s' : σ}
    (h : outcome action s = (.error error, s')) (next : α → Run (StateM σ) β) :
    outcome (action >>= next) s = (.error error, s') := by
  rw [outcome_bind, h]

theorem outcome_lift (action : StateM σ α) (s : σ) :
    outcome (liftM action : Run (StateM σ) α) s = (.ok (action.run s).1, (action.run s).2) := rfl

theorem outcome_attemptHost (action : StateM σ (Except IoError α)) (s : σ) :
    outcome (attemptHost action) s =
      ((action.run s).1.mapError .unreadable, (action.run s).2) := by
  simp only [outcome, attemptHost, attempt, ExceptT.run, ExceptT.mk, StateT.run, bind,
    StateT.bind]
  rcases action s with ⟨result, s'⟩
  cases result <;> rfl

section Texts

variable {File : Type} [DecidableEq File]

/-- The texts of files when the one at a path has been made canonical. -/
def settle (engine : Engine) (mode : Mode) (lead : Text → Option File)
    (texts : File → Option Text) (path : Text) (file : File) : Option Text :=
  if mode = .inPlace ∧ lead path = some file then (texts file).map (engine.markup path)
  else texts file

def differs (engine : Engine) (lead : Text → Option File) (texts : File → Option Text)
    (path : Text) : Bool :=
  match (lead path).bind texts with
  | some text => engine.markup path text ≠ text
  | none => false

/-- The arguments that are not in canonical form when it is their turn. -/
def differing (engine : Engine) (mode : Mode) (lead : Text → Option File) :
    (File → Option Text) → List Text → List Text
  | _, [] => []
  | texts, path :: rest =>
      let others := differing engine mode lead (settle engine mode lead texts path) rest
      if differs engine lead texts path then path :: others else others

theorem foldl_settle (engine : Engine) (lead : Text → Option File) (texts : File → Option Text)
    (paths : List Text) (file : File) :
    paths.foldl (settle engine .inPlace lead) texts file =
      (texts file).map fun text =>
        (paths.filter (lead · = some file)).foldl (fun text path => engine.markup path text)
          text := by
  induction paths generalizing texts with
  | nil => simp
  | cons path paths ih =>
      rw [List.foldl_cons, ih, settle]
      by_cases hlead : lead path = some file
      · rw [if_pos ⟨rfl, hlead⟩, List.filter_cons_of_pos (by simpa using hlead), Option.map_map]
        rfl
      · rw [if_neg (fun h => hlead h.2), List.filter_cons_of_neg (by simpa using hlead)]

theorem settle_of_ne (engine : Engine) (hmode : mode ≠ .inPlace) (lead : Text → Option File)
    (texts : File → Option Text) (path : Text) : settle engine mode lead texts path = texts :=
  funext fun _ => if_neg fun h => hmode h.1

theorem settle_of_markup {lead : Text → Option File} {texts : File → Option Text} {path text : Text}
    {file : File} (hlead : lead path = some file) (htext : texts file = some text)
    (h : engine.markup path text = text) : settle engine mode lead texts path = texts := by
  funext other
  rw [settle]
  split
  · next hother =>
      cases hlead.symm.trans hother.2
      rw [htext, Option.map_some, h]
  · rfl

end Texts

/-! ## One file -/

/-- A file can not be read, or what it is to hold can not be printed or written back. -/
inductive Refused (host : Host (StateM σ)) (engine : Engine) (mode : Mode) (path : Text) (s : σ) :
    IoError → σ → Prop where
  | read {error : IoError} {s' : σ} : (host.readFile path).run s = (.error error, s') →
      Refused host engine mode path s error s'
  | print (text : Text) (found : σ) {error : IoError} {s' : σ} :
      (host.readFile path).run s = (.ok text, found) → mode = .print →
        (host.print (engine.markup path text)).run found = (.error error, s') →
          Refused host engine mode path s error s'
  | write (text : Text) (found : σ) {error : IoError} {s' : σ} :
      (host.readFile path).run s = (.ok text, found) → mode = .inPlace →
        engine.markup path text ≠ text →
          (host.writeFile path (engine.markup path text)).run found = (.error error, s') →
            Refused host engine mode path s error s'

def Written (disk : Disk σ) (mode : Mode) (s : σ) (paths : List Text) (file : disk.File) : Prop :=
  mode = .inPlace ∧ ∃ path ∈ paths, disk.file? s path = some file

/-- The files at these paths have been made canonical in order, and nothing else has been done. -/
structure Processed (disk : Disk σ) (engine : Engine) (mode : Mode) (s : σ) (paths : List Text)
    (s' : σ) : Prop where
  readable : ∀ path ∈ paths, ((disk.file? s path).bind (disk.texts s)).isSome
  changesOnly : disk.ChangesOnly (Written disk mode s paths) s s'
  texts : disk.texts s' = paths.foldl (settle engine mode (disk.file? s)) (disk.texts s)

namespace Processed

variable {s s' s'' : σ} {path : Text} {paths rest : List Text}

theorem nil (disk : Disk σ) (engine : Engine) (mode : Mode) (s : σ) :
    Processed disk engine mode s [] s :=
  ⟨nofun, .refl _ s, rfl⟩

theorem cons (h : Processed disk engine mode s [path] s')
    (hrest : Processed disk engine mode s' rest s'') :
    Processed disk engine mode s (path :: rest) s'' := by
  have hlead := h.changesOnly.file?
  have htexts : disk.texts s' = settle engine mode (disk.file? s) (disk.texts s) path := h.texts
  refine ⟨List.forall_mem_cons.mpr ⟨h.readable path List.mem_cons_self, fun later hlater => ?_⟩,
    ?_, ?_⟩
  · have hreadable := hrest.readable later hlater
    rw [hlead] at hreadable
    cases hfile : disk.file? s later with
    | none => simp [hfile] at hreadable
    | some file =>
        simp only [hfile, Option.bind_some, htexts, settle] at hreadable ⊢
        split at hreadable
        · simpa using hreadable
        · exact hreadable
  · refine (h.changesOnly.mono ?_).trans (hrest.changesOnly.mono ?_)
    · rintro file ⟨hmode, given, hgiven, hfile⟩
      cases List.mem_singleton.mp hgiven
      exact ⟨hmode, path, List.mem_cons_self, hfile⟩
    · rintro file ⟨hmode, given, hgiven, hfile⟩
      exact ⟨hmode, given, List.mem_cons_of_mem _ hgiven, (congrFun hlead given).symm.trans hfile⟩
  · rw [hrest.texts, hlead, htexts, List.foldl_cons]

theorem single (hreadable : ((disk.file? s path).bind (disk.texts s)).isSome)
    (hsame : disk.Same s s')
    (hsettle : settle engine mode (disk.file? s) (disk.texts s) path = disk.texts s) :
    Processed disk engine mode s [path] s' :=
  ⟨by simpa using hreadable, hsame.changesOnly _, hsame.texts_eq.trans hsettle.symm⟩

theorem same (h : Processed disk engine mode s paths s') (hsame : disk.Same s' s'') :
    Processed disk engine mode s paths s'' :=
  ⟨h.readable, h.changesOnly.trans (hsame.changesOnly _), hsame.texts_eq.trans h.texts⟩

end Processed

theorem outcome_processFile_read {path text : Text} {s s' : σ}
    (hread : (host.readFile path).run s = (.ok text, s')) :
    outcome (processFile host engine mode path) s =
      match outcome (deliver host path (engine.markup path text)
        (decide (engine.markup path text ≠ text)) mode) s' with
      | (.ok _, s'') => (.ok (decide (engine.markup path text ≠ text)), s'')
      | (.error error, s'') => (.error error, s'') := by
  have hsource : outcome (attemptHost (host.readFile path)) s = (.ok text, s') := by
    rw [outcome_attemptHost, hread]
    rfl
  rw [processFile, outcome_bind_ok hsource, outcome_bind]
  rcases outcome (deliver host path (engine.markup path text)
    (decide (engine.markup path text ≠ text)) mode) s' with ⟨error | _, s''⟩ <;> rfl

namespace Refused

variable {path : Text} {error : IoError} {s s' : σ}

theorem outcome_processFile (h : Refused host engine mode path s error s') :
    outcome (processFile host engine mode path) s = (.error (.unreadable error), s') := by
  cases h with
  | read hread =>
      have hsource : outcome (attemptHost (host.readFile path)) s =
          (.error (.unreadable error), s') := by
        rw [outcome_attemptHost, hread]
        rfl
      rw [processFile, outcome_bind_error hsource]
  | print text found hread hmode hprint =>
      subst hmode
      rw [outcome_processFile_read hread, deliver, outcome_attemptHost, hprint]
      rfl
  | write text found hread hmode hchanged hwrite =>
      subst hmode
      rw [outcome_processFile_read hread, deliver, if_pos (by simpa using hchanged),
        outcome_attemptHost, hwrite]
      rfl

theorem changesOnly (h : Refused host engine mode path s error s') (huses : host.Uses disk) :
    disk.ChangesOnly (Written disk mode s [path]) s s' := by
  have hsame := huses.readFile path s
  cases h with
  | read hread =>
      rw [hread] at hsame
      exact hsame.changesOnly _
  | print text found hread _ hprint =>
      have hprinted := huses.print (engine.markup path text) found
      rw [hread] at hsame
      rw [hprint] at hprinted
      exact (hsame.changesOnly _).trans (hprinted.changesOnly _)
  | write text found hread hmode _ hwrite =>
      obtain ⟨file, hfile, -⟩ := huses.readFile_ok (congrArg Prod.fst hread)
      rw [hread] at hsame
      have hwritten := huses.writeFile (engine.markup path text)
        ((congrFun hsame.file? path).trans hfile)
      rw [hwrite] at hwritten
      refine (hsame.changesOnly _).trans (hwritten.mono ?_)
      rintro _ rfl
      exact ⟨hmode, path, List.mem_cons_self, hfile⟩

theorem reported (h : Refused host engine mode path s error s') (huses : host.Uses disk) :
    disk.reported s' = disk.reported s := by
  have hreported := huses.reported_readFile path s
  cases h with
  | read hread =>
      rw [hread] at hreported
      exact hreported
  | print text found hread _ hprint =>
      have hprinted := huses.reported_print (engine.markup path text) found
      rw [hread] at hreported
      rw [hprint] at hprinted
      exact hprinted.trans hreported
  | write text found hread _ _ hwrite =>
      have hwritten := huses.reported_writeFile path (engine.markup path text) found
      rw [hread] at hreported
      rw [hwrite] at hwritten
      exact hwritten.trans hreported

end Refused

theorem processFile_cases (huses : host.Uses disk) (path : Text) (s : σ) :
    (∃ s', outcome (processFile host engine mode path) s =
        (.ok (differs engine (disk.file? s) (disk.texts s) path), s') ∧
      Processed disk engine mode s [path] s' ∧ disk.reported s' = disk.reported s) ∨
    ∃ error s', Refused host engine mode path s error s' := by
  have hsame := huses.readFile path s
  have hreported := huses.reported_readFile path s
  rcases hread : (host.readFile path).run s with ⟨error | text, s₁⟩
  · exact .inr ⟨error, s₁, .read hread⟩
  obtain ⟨file, hfile, htext⟩ := huses.readFile_ok (congrArg Prod.fst hread)
  rw [hread] at hsame hreported
  have hdelivered := @outcome_processFile_read _ host engine mode _ _ _ _ hread
  have hdiffers : differs engine (disk.file? s) (disk.texts s) path =
      decide (engine.markup path text ≠ text) := by
    simp only [differs, hfile, Option.bind_some, htext]
  have hreadable : ((disk.file? s path).bind (disk.texts s)).isSome := by simp [hfile, htext]
  rw [hdiffers]
  cases mode with
  | print =>
      rcases hprint : (host.print (engine.markup path text)).run s₁ with ⟨error | _, s₂⟩
      · exact .inr ⟨error, s₂, .print text s₁ hread rfl hprint⟩
      have hprinted := huses.print (engine.markup path text) s₁
      have hprinted' := huses.reported_print (engine.markup path text) s₁
      rw [hprint] at hprinted hprinted'
      refine .inl ⟨s₂, ?_, .single hreadable (hsame.trans hprinted)
        (settle_of_ne engine (by decide) _ _ path), hprinted'.trans hreported⟩
      rw [hdelivered, deliver, outcome_attemptHost, hprint]
      rfl
  | check =>
      exact .inl ⟨s₁, hdelivered, .single hreadable hsame
        (settle_of_ne engine (by decide) _ _ path), hreported⟩
  | inPlace =>
      by_cases hchanged : engine.markup path text = text
      · refine .inl ⟨s₁, ?_, .single hreadable hsame ?_, hreported⟩
        · rw [hdelivered, deliver, if_neg (by simpa using hchanged)]
          rfl
        · exact settle_of_markup hfile htext hchanged
      · rcases hwrite : (host.writeFile path (engine.markup path text)).run s₁ with ⟨error | _, s₂⟩
        · exact .inr ⟨error, s₂, .write text s₁ hread rfl hchanged hwrite⟩
        have hlead : disk.file? s₁ path = some file := (congrFun hsame.file? path).trans hfile
        have hwritten := huses.writeFile (engine.markup path text) hlead
        have hheld := huses.writeFile_ok hlead (congrArg Prod.fst hwrite)
        have hwritten' := huses.reported_writeFile path (engine.markup path text) s₁
        rw [hwrite] at hwritten hheld hwritten'
        refine .inl ⟨s₂, ?_, ⟨by simpa using hreadable, ?_, ?_⟩, hwritten'.trans hreported⟩
        · rw [hdelivered, deliver, if_pos (by simpa using hchanged), outcome_attemptHost, hwrite]
          rfl
        · refine (hsame.changesOnly _).trans (hwritten.mono ?_)
          rintro _ rfl
          exact ⟨rfl, path, List.mem_cons_self, hfile⟩
        · funext other
          by_cases hother : other = file
          · subst hother
            rw [hheld, List.foldl_cons, List.foldl_nil, settle, if_pos ⟨rfl, hfile⟩, htext]
            rfl
          · rw [hwritten.texts_eq hother, hsame.texts_eq, List.foldl_cons, List.foldl_nil, settle,
              if_neg fun h => hother (Option.some.inj (h.2.symm.trans hfile))]

/-! ## One file after the other -/

def noted (host : Host (StateM σ)) (mode : Mode) (path : Text) (changed : Bool) (s : σ) : σ :=
  if changed && mode ≠ .print then
    ((host.report (changeNote mode path ++ ['\n'])).run s).2
  else s

theorem same_noted (huses : host.Uses disk) (mode : Mode) (path : Text) (changed : Bool) (s : σ) :
    disk.Same s (noted host mode path changed s) := by
  unfold noted
  split
  · exact huses.report _ s
  · exact .refl _ s

theorem outcome_processFiles_cons {path : Text} {changed : Bool} {s s' : σ}
    (h : outcome (processFile host engine mode path) s = (.ok changed, s')) (rest : List Text) :
    outcome (processFiles host engine mode (path :: rest)) s =
      match outcome (processFiles host engine mode rest) (noted host mode path changed s') with
      | (.ok others, s'') => (.ok ((if changed then 1 else 0) + others), s'')
      | (.error error, s'') => (.error error, s'') := by
  have hcounted (s : σ) : outcome (processFiles host engine mode rest >>= fun others =>
      (pure ((if changed then 1 else 0) + others) : Run (StateM σ) Nat)) s =
        match outcome (processFiles host engine mode rest) s with
        | (.ok others, s') => (.ok ((if changed then 1 else 0) + others), s')
        | (.error error, s') => (.error error, s') := by
    rw [outcome_bind]
    rcases outcome (processFiles host engine mode rest) s with ⟨error | others, s'⟩ <;> rfl
  rw [processFiles, outcome_bind_ok h]
  simp only [noted]
  split
  · rw [outcome_bind_ok (outcome_lift _ _), hcounted]
    rfl
  · exact hcounted s'

theorem outcome_processFiles_error {path : Text} {error : CommandError} {s s' : σ}
    (h : outcome (processFile host engine mode path) s = (.error error, s')) (rest : List Text) :
    outcome (processFiles host engine mode (path :: rest)) s = (.error error, s') := by
  rw [processFiles, outcome_bind_error h]

def notes (mode : Mode) (paths : List Text) : Text :=
  if mode = .print then [] else paths.flatMap fun path => changeNote mode path ++ ['\n']

theorem reported_noted (huses : host.Uses disk) (mode : Mode) (path : Text) (changed : Bool)
    (s : σ) :
    disk.reported (noted host mode path changed s) =
      disk.reported s ++ notes mode (if changed then [path] else []) := by
  by_cases hmode : mode = .print
  · simp [noted, notes, hmode]
  · cases changed with
    | false => simp [noted, notes]
    | true => simpa [noted, notes, hmode] using huses.reported_report _ s

theorem notes_append (mode : Mode) (first second : List Text) :
    notes mode (first ++ second) = notes mode first ++ notes mode second := by
  unfold notes
  split
  · rfl
  · exact List.flatMap_append

/-- The files at these paths are made canonical, and the changes are reported. -/
structure Made (host : Host (StateM σ)) (disk : Disk σ) (engine : Engine) (mode : Mode) (s : σ)
    (paths : List Text) (s' : σ) : Prop where
  counted : outcome (processFiles host engine mode paths) s =
    (.ok (differing engine mode (disk.file? s) (disk.texts s) paths).length, s')
  processed : Processed disk engine mode s paths s'
  reported : disk.reported s' = disk.reported s ++
    notes mode (differing engine mode (disk.file? s) (disk.texts s) paths)

/-- The file at `path` ends the run: those in front of it are made canonical. -/
structure Stops (host : Host (StateM σ)) (engine : Engine) (mode : Mode) (s : σ)
    (paths earlier : List Text) (path : Text) (found : σ) (error : IoError) (s' : σ) : Prop where
  paths : ∃ later, paths = earlier ++ path :: later
  earlier : ∃ changed, outcome (processFiles host engine mode earlier) s = (.ok changed, found)
  refused : Refused host engine mode path found error s'

theorem Made.cons (huses : host.Uses disk) {path : Text} {rest : List Text} {s s₁ s' : σ}
    (hfile : outcome (processFile host engine mode path) s =
      (.ok (differs engine (disk.file? s) (disk.texts s) path), s₁))
    (hprocessed : Processed disk engine mode s [path] s₁)
    (hreported : disk.reported s₁ = disk.reported s)
    (h : Made host disk engine mode
      (noted host mode path (differs engine (disk.file? s) (disk.texts s) path) s₁) rest s') :
    Made host disk engine mode s (path :: rest) s' := by
  have hfirst := hprocessed.same (same_noted huses mode path
    (differs engine (disk.file? s) (disk.texts s) path) s₁)
  have hlead := hfirst.changesOnly.file?
  have htexts : disk.texts _ = settle engine mode (disk.file? s) (disk.texts s) path :=
    hfirst.texts
  have hdiffering : differing engine mode (disk.file? s) (disk.texts s) (path :: rest) =
      (if differs engine (disk.file? s) (disk.texts s) path then [path] else []) ++
        differing engine mode (disk.file? (noted host mode path
          (differs engine (disk.file? s) (disk.texts s) path) s₁))
          (disk.texts (noted host mode path
            (differs engine (disk.file? s) (disk.texts s) path) s₁)) rest := by
    rw [hlead, htexts, differing]
    split <;> rfl
  refine ⟨?_, hfirst.cons h.processed, ?_⟩
  · rw [outcome_processFiles_cons hfile, h.counted, hdiffering, List.length_append,
      apply_ite List.length]
    rfl
  · rw [h.reported, reported_noted huses, hreported, hdiffering, notes_append, List.append_assoc]

theorem Stops.cons {path given : Text} {changed : Bool} {paths earlier : List Text}
    {s s₁ found s' : σ} {error : IoError}
    (hfile : outcome (processFile host engine mode given) s = (.ok changed, s₁))
    (h : Stops host engine mode (noted host mode given changed s₁) paths earlier path found error
      s') :
    Stops host engine mode s (given :: paths) (given :: earlier) path found error s' := by
  obtain ⟨later, hpaths⟩ := h.paths
  obtain ⟨others, hearlier⟩ := h.earlier
  refine ⟨⟨later, congrArg (given :: ·) hpaths⟩, ?_, h.refused⟩
  rw [outcome_processFiles_cons hfile, hearlier]
  exact ⟨_, rfl⟩

theorem processFiles_cases (huses : host.Uses disk) (paths : List Text) (s : σ) :
    (∃ s', Made host disk engine mode s paths s') ∨
      ∃ earlier path found error s',
        Stops host engine mode s paths earlier path found error s' := by
  induction paths generalizing s with
  | nil => exact .inl ⟨s, rfl, .nil disk engine mode s, by simp [differing, notes]⟩
  | cons path paths ih =>
      rcases @processFile_cases σ host disk engine mode huses path s with
        ⟨s₁, hfile, hprocessed, hreported⟩ | ⟨error, s', hrefused⟩
      · rcases ih (noted host mode path (differs engine (disk.file? s) (disk.texts s) path) s₁)
          with ⟨s', hmade⟩ | ⟨earlier, path, found, error, s', hstops⟩
        · exact .inl ⟨s', hmade.cons huses hfile hprocessed hreported⟩
        · exact .inr ⟨_, path, found, error, s', hstops.cons hfile⟩
      · exact .inr ⟨[], path, s, error, s', ⟨paths, rfl⟩, ⟨0, rfl⟩, hrefused⟩

theorem outcome_processFiles_append {earlier rest : List Text} {changed : Nat}
    {error : CommandError} {s found s' : σ}
    (h : outcome (processFiles host engine mode earlier) s = (.ok changed, found))
    (hrest : outcome (processFiles host engine mode rest) found = (.error error, s')) :
    outcome (processFiles host engine mode (earlier ++ rest)) s = (.error error, s') := by
  induction earlier generalizing s changed with
  | nil =>
      cases h
      exact hrest
  | cons path earlier ih =>
      rcases hfile : outcome (processFile host engine mode path) s with ⟨failed | differed, s₁⟩
      · rw [outcome_processFiles_error hfile] at h
        cases h
      · rw [outcome_processFiles_cons hfile] at h
        rw [List.cons_append, outcome_processFiles_cons hfile]
        rcases hothers : outcome (processFiles host engine mode earlier)
          (noted host mode path differed s₁) with ⟨failed | others, s₂⟩
        · rw [hothers] at h
          cases h
        · rw [hothers] at h
          cases h
          rw [ih hothers]

namespace Stops

variable {paths earlier : List Text} {path : Text} {s found s' : σ} {error : IoError}

theorem outcome_processFiles (h : Stops host engine mode s paths earlier path found error s') :
    outcome (processFiles host engine mode paths) s = (.error (.unreadable error), s') := by
  obtain ⟨later, rfl⟩ := h.paths
  obtain ⟨changed, hearlier⟩ := h.earlier
  exact outcome_processFiles_append hearlier
    (outcome_processFiles_error h.refused.outcome_processFile later)

theorem made (h : Stops host engine mode s paths earlier path found error s')
    (huses : host.Uses disk) : Made host disk engine mode s earlier found := by
  obtain ⟨changed, hearlier⟩ := h.earlier
  rcases @processFiles_cases σ host disk engine mode huses earlier s with
    ⟨s₁, hmade⟩ | ⟨_, _, _, _, _, hstops⟩
  · cases hmade.counted.symm.trans hearlier
    exact hmade
  · cases hstops.outcome_processFiles.symm.trans hearlier

end Stops

/-! ## Runs -/

def summarized (host : Host (StateM σ)) (mode : Mode) (files changed : Nat) (s : σ) : σ :=
  if mode ≠ .print then ((host.report (summary files changed ++ ['\n'])).run s).2 else s

def verdict (mode : Mode) (changed : Nat) : Except CommandError Unit :=
  if mode = .check && 0 < changed then .error (.notCanonical changed) else .ok ()

theorem Made.outcome_canonicalizeFiles {files : List Text} {s s' : σ}
    (h : Made host disk engine mode s files s') :
    outcome (canonicalizeFiles host engine mode files) s =
      (verdict mode (differing engine mode (disk.file? s) (disk.texts s) files).length,
        summarized host mode files.length
          (differing engine mode (disk.file? s) (disk.texts s) files).length s') := by
  rw [canonicalizeFiles, outcome_bind_ok h.counted]
  simp only [summarized, verdict]
  split
  · rw [outcome_bind_ok (outcome_lift _ _)]
    split <;> rfl
  · split <;> rfl

theorem Stops.outcome_canonicalizeFiles {files earlier : List Text} {path : Text} {s found s' : σ}
    {error : IoError} (h : Stops host engine mode s files earlier path found error s') :
    outcome (canonicalizeFiles host engine mode files) s = (.error (.unreadable error), s') := by
  rw [canonicalizeFiles, outcome_bind_error h.outcome_processFiles]

theorem run_eq {words : List Text} {arguments : Arguments} {s₀ s : σ}
    (hwords : CommandLine.parse words = .ok arguments) (hfiles : arguments.files ≠ [])
    (hload : outcome (load host arguments) s₀ = (.ok engine, s)) :
    (run host words).run s₀ =
      (exitCode host (outcome (canonicalizeFiles host engine (Mode.ofArguments arguments)
        arguments.files) s).1).run
        (outcome (canonicalizeFiles host engine (Mode.ofArguments arguments)
          arguments.files) s).2 := by
  have hcanonicalize : outcome (canonicalize host arguments) s₀ =
      outcome (canonicalizeFiles host engine (Mode.ofArguments arguments) arguments.files) s := by
    rw [canonicalize, outcome_bind_ok hload, if_neg (by simpa using hfiles)]
  rw [← hcanonicalize, run, hwords]
  rfl

def errorNote (error : CommandError) : Text := "Error: ".toList ++ error.message ++ ['\n']

/--
How a run ends at the file at `path`: those in front of it are made canonical, and from there on
no other file is changed.
-/
structure EndsAt (disk : Disk σ) (engine : Engine) (mode : Mode) (s : σ) (earlier : List Text)
    (path : Text) (found : σ) (error : IoError) (code : Nat) (s' : σ) : Prop where
  processed : Processed disk engine mode s earlier found
  changesOnly : disk.ChangesOnly (Written disk mode s [path]) found s'
  exit : code = 1
  reported : disk.reported s' = disk.reported s ++
    notes mode (differing engine mode (disk.file? s) (disk.texts s) earlier) ++
      errorNote (.unreadable error)

/--
How a run ends behind all files: in place, each file is made canonical as many times as it is
given. A check fails where a file is not in canonical form, with the number of those that were not
when it was their turn.
-/
structure Completes (disk : Disk σ) (engine : Engine) (mode : Mode) (s : σ) (files : List Text)
    (code : Nat) (s' : σ) : Prop where
  held : mode = .inPlace → ∀ path ∈ files, ∃ file text, disk.file? s path = some file ∧
    disk.texts s file = some text ∧ disk.texts s' file = some
      ((files.filter (disk.file? s · = some file)).foldl (fun text path => engine.markup path text)
        text)
  exit : code = if mode = .check && files.any (differs engine (disk.file? s) (disk.texts s))
    then 1 else 0
  reported :
    let changed := differing engine mode (disk.file? s) (disk.texts s) files
    disk.reported s' = disk.reported s ++ notes mode changed ++
      (if mode = .print then [] else summary files.length changed.length ++ ['\n']) ++
      (if code = 1 then errorNote (.notCanonical changed.length) else [])

theorem Written.mono {s : σ} {paths more : List Text} {file : disk.File}
    (h : Written disk mode s paths file) (hmore : ∀ path ∈ paths, path ∈ more) :
    Written disk mode s more file := by
  obtain ⟨hmode, path, hpath, hfile⟩ := h
  exact ⟨hmode, path, hmore path hpath, hfile⟩

/-- Outside of runs in place, each file is met as it is at the start. -/
theorem differing_eq_filter {File : Type} [DecidableEq File] (engine : Engine)
    (hmode : mode ≠ .inPlace) (lead : Text → Option File) (texts : File → Option Text)
    (paths : List Text) :
    differing engine mode lead texts paths = paths.filter (differs engine lead texts) := by
  induction paths with
  | nil => rfl
  | cons path paths ih =>
      rw [differing, settle_of_ne engine hmode, ih, List.filter_cons]

theorem Stops.endsAt (huses : host.Uses disk) {files earlier : List Text} {path : Text}
    {s found s' : σ} {error : IoError}
    (h : Stops host engine mode s files earlier path found error s') :
    EndsAt disk engine mode s earlier path found error 1
      ((host.report (errorNote (.unreadable error))).run s').2 := by
  have hmade := h.made huses
  have hlead := hmade.processed.changesOnly.file?
  refine ⟨hmade.processed, ?_, rfl, ?_⟩
  · refine ((h.refused.changesOnly huses).mono ?_).trans ((huses.report _ s').changesOnly _)
    rintro file ⟨hmode, given, hgiven, hfile⟩
    exact ⟨hmode, given, hgiven, (congrFun hlead given).symm.trans hfile⟩
  · rw [huses.reported_report, h.refused.reported huses, hmade.reported]

theorem Stops.changesOnly (huses : host.Uses disk) {files earlier : List Text} {path : Text}
    {s found s' : σ} {error : IoError}
    (h : Stops host engine mode s files earlier path found error s') :
    disk.ChangesOnly (Written disk mode s files) s
      ((host.report (errorNote (.unreadable error))).run s').2 := by
  have hends := h.endsAt huses
  obtain ⟨later, rfl⟩ := h.paths
  refine (hends.processed.changesOnly.mono ?_).trans (hends.changesOnly.mono ?_)
  · exact fun file hfile => hfile.mono fun given hgiven => List.mem_append_left _ hgiven
  · refine fun file hfile => hfile.mono fun given hgiven => ?_
    rw [List.mem_singleton.mp hgiven]
    exact List.mem_append_right _ List.mem_cons_self

theorem Processed.held {files : List Text} {path : Text} {s s' : σ}
    (h : Processed disk engine .inPlace s files s') (hpath : path ∈ files) :
    ∃ file text, disk.file? s path = some file ∧ disk.texts s file = some text ∧
      disk.texts s' file = some
        ((files.filter (disk.file? s · = some file)).foldl
          (fun text path => engine.markup path text) text) := by
  obtain ⟨text, htext⟩ := Option.isSome_iff_exists.mp (h.readable path hpath)
  obtain ⟨file, hfile, htext⟩ := Option.bind_eq_some_iff.mp htext
  refine ⟨file, text, hfile, htext, ?_⟩
  rw [h.texts, foldl_settle, htext, Option.map_some]

theorem same_summarized (huses : host.Uses disk) (mode : Mode) (files changed : Nat) (s : σ) :
    disk.Same s (summarized host mode files changed s) := by
  unfold summarized
  split
  · exact huses.report _ s
  · exact .refl _ s

theorem reported_summarized (huses : host.Uses disk) (mode : Mode) (files changed : Nat) (s : σ) :
    disk.reported (summarized host mode files changed s) = disk.reported s ++
      (if mode = .print then [] else summary files changed ++ ['\n']) := by
  by_cases hmode : mode = .print
  · simp [summarized, hmode]
  · simpa [summarized, hmode] using huses.reported_report _ s

theorem verdict_differing {File : Type} [DecidableEq File] (engine : Engine) (mode : Mode)
    (lead : Text → Option File) (texts : File → Option Text) (files : List Text) :
    verdict mode (differing engine mode lead texts files).length =
      if mode = .check && files.any (differs engine lead texts)
      then .error (.notCanonical (differing engine mode lead texts files).length) else .ok () := by
  by_cases hmode : mode = .check
  · subst hmode
    have hany : (0 < (differing engine .check lead texts files).length) ↔
        files.any (differs engine lead texts) := by
      rw [differing_eq_filter engine (by decide), List.length_filter_pos_iff, List.any_eq_true]
    simp only [verdict, decide_true, Bool.true_and, decide_eq_true_eq, hany]
  · simp [verdict, hmode]

theorem Made.completes (huses : host.Uses disk) {files : List Text} {s s' : σ}
    (h : Made host disk engine mode s files s') :
    ∃ code s'', (exitCode host (outcome (canonicalizeFiles host engine mode files) s).1).run
        (outcome (canonicalizeFiles host engine mode files) s).2 = (code, s'') ∧
      disk.Same s' s'' ∧ Completes disk engine mode s files code s'' := by
  have hsame := same_summarized huses mode files.length
    (differing engine mode (disk.file? s) (disk.texts s) files).length s'
  have hreported := reported_summarized huses mode files.length
    (differing engine mode (disk.file? s) (disk.texts s) files).length s'
  rw [h.reported] at hreported
  rw [h.outcome_canonicalizeFiles, verdict_differing]
  by_cases hfails : mode = .check && files.any (differs engine (disk.file? s) (disk.texts s))
  · rw [if_pos hfails]
    have hfinal := hsame.trans (huses.report (errorNote (.notCanonical
      (differing engine mode (disk.file? s) (disk.texts s) files).length)) _)
    refine ⟨1, _, rfl, hfinal, ?_, ?_, ?_⟩
    · rintro rfl
      cases hfails
    · rw [if_pos hfails]
    · exact (huses.reported_report _ _).trans (congrArg (· ++ _) hreported)
  · rw [if_neg hfails]
    refine ⟨0, _, rfl, hsame, ?_, ?_, ?_⟩
    · rintro rfl path hpath
      exact (h.processed.same hsame).held hpath
    · rw [if_neg hfails]
    · exact hreported.trans (List.append_nil _).symm

/--
A run with files changes no other file, and none at all unless it writes in place. It ends at the
first file that the host refuses; else it goes through all of them.
-/
theorem run_files (huses : host.Uses disk) {words : List Text} {arguments : Arguments} {s₀ s : σ}
    (hwords : CommandLine.parse words = .ok arguments) (hfiles : arguments.files ≠ [])
    (hload : outcome (load host arguments) s₀ = (.ok engine, s)) :
    let mode := Mode.ofArguments arguments
    let files := arguments.files
    ∃ code s', (run host words).run s₀ = (code, s') ∧
      (∀ file, (∀ path ∈ files, disk.file? s path ≠ some file) →
        disk.content? s' file = disk.content? s file) ∧
      (mode ≠ .inPlace → ∀ file, disk.content? s' file = disk.content? s file) ∧
      (∀ earlier path found error failed,
        Stops host engine mode s files earlier path found error failed →
          EndsAt disk engine mode s earlier path found error code s') ∧
      ((∀ earlier path found error failed,
        ¬ Stops host engine mode s files earlier path found error failed) →
          Completes disk engine mode s files code s') := by
  intro mode files
  have hrun := run_eq hwords hfiles hload
  have hchanges {s' : σ} (h : disk.ChangesOnly (Written disk mode s files) s s') :
      (∀ file, (∀ path ∈ files, disk.file? s path ≠ some file) →
        disk.content? s' file = disk.content? s file) ∧
      (mode ≠ .inPlace → ∀ file, disk.content? s' file = disk.content? s file) :=
    ⟨fun file hunlisted => h.content? file fun ⟨_, path, hpath, hfile⟩ =>
        hunlisted path hpath hfile,
      fun hmode file => h.content? file fun hwritten => hmode hwritten.1⟩
  rcases @processFiles_cases σ host disk engine mode huses files s with
    ⟨s', hmade⟩ | ⟨earlier, path, found, error, s', hstops⟩
  · obtain ⟨code, s'', hended, hsame, hcompletes⟩ := hmade.completes huses
    obtain ⟨hunlisted, hkept⟩ := hchanges (hmade.processed.same hsame).changesOnly
    refine ⟨code, s'', hrun.trans hended, hunlisted, hkept, ?_, fun _ => hcompletes⟩
    intro earlier path found error failed hstops
    cases hmade.counted.symm.trans hstops.outcome_processFiles
  · obtain ⟨hunlisted, hkept⟩ := hchanges (hstops.changesOnly huses)
    refine ⟨1, _, ?_, hunlisted, hkept, ?_, ?_⟩
    · rw [hrun, hstops.outcome_canonicalizeFiles]
      rfl
    · intro earlier path found error failed hstops'
      cases hstops.outcome_processFiles.symm.trans hstops'.outcome_processFiles
      exact hstops'.endsAt huses
    · intro hnone
      exact absurd hstops (hnone earlier path found error s')

def pages : Session where
  tree.files := [(["a.md".toList], .text "a\n".toList), (["b.md".toList], .text "b\n".toList),
    (["d.md".toList], .text "d\n".toList)]

def given : Arguments where
  files := ["a.md".toList, "./a.md".toList, "c.md".toList, "b.md".toList]
  inPlace := true

def defaults : Engine := ⟨{}, Catalog.empty.resolver⟩

theorem run_files_missing :
    let words := ["rewrite".toList, "-i".toList, "a.md".toList, "./a.md".toList, "c.md".toList,
      "b.md".toList]
    CommandLine.parse words = .ok given ∧ given.files ≠ [] ∧
      outcome (load Session.host given) pages = (.ok defaults, pages) ∧
      ∃ code s', (run Session.host words).run pages = (code, s') ∧
        Session.disk.content? s' ["d.md".toList] = some (.text "d\n".toList) ∧
        (∀ earlier path found error failed,
          Stops Session.host defaults .inPlace pages given.files earlier path found error failed →
            EndsAt Session.disk defaults .inPlace pages earlier path found error code s') ∧
        code = 1 ∧ s'.tree.files = [(["a.md".toList], .text "a\n\n".toList),
          (["b.md".toList], .text "b\n".toList), (["d.md".toList], .text "d\n".toList)] := by
  intro words
  have hwords : CommandLine.parse words = .ok given := rfl
  have hfiles : given.files ≠ [] := List.cons_ne_nil _ _
  have hload : outcome (load Session.host given) pages = (.ok defaults, pages) := rfl
  obtain ⟨code, s', hrun, hunlisted, -, hends, -⟩ :=
    run_files Session.uses_disk hwords hfiles hload
  have hcode : ((run Session.host words).run pages).1 = 1 := by decide +kernel
  have htree : ((run Session.host words).run pages).2.tree.files =
      [(["a.md".toList], .text "a\n\n".toList), (["b.md".toList], .text "b\n".toList),
        (["d.md".toList], .text "d\n".toList)] := by decide +kernel
  rw [hrun] at hcode htree
  refine ⟨hwords, hfiles, hload, code, s', hrun, ?_, hends, hcode, htree⟩
  exact hunlisted ["d.md".toList] (by decide +kernel)

end Canonmark.Command
