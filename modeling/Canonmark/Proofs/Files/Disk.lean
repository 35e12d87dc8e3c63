import Canonmark.Files.Session

/-!
# Disks

What a host does with files, as it can be seen from outside. A file is not its path: several paths
may lead to one file. Reading changes no file, and writing to a file changes that file alone, also
if it fails; neither changes where a path leads. The host of a session has a disk.
-/

namespace Canonmark

/-- The files in the states of a machine, and what the machine has reported. -/
structure Disk (σ : Type) where
  File : Type
  [decidableEq : DecidableEq File]
  file? : σ → Text → Option File
  content? : σ → File → Option Content
  reported : σ → Text

attribute [instance] Disk.decidableEq

namespace Disk

variable {σ : Type} {disk : Disk σ}

def texts (disk : Disk σ) (s : σ) (file : disk.File) : Option Text :=
  match disk.content? s file with
  | some (.text text) => some text
  | _ => none

/-- No file outside of `files` is different in the second state, and all paths lead where they
led. -/
structure ChangesOnly (disk : Disk σ) (files : disk.File → Prop) (s s' : σ) : Prop where
  file? : disk.file? s' = disk.file? s
  content? (file : disk.File) : ¬ files file → disk.content? s' file = disk.content? s file

namespace ChangesOnly

variable {files more : disk.File → Prop} {s s' s'' : σ}

theorem refl (files : disk.File → Prop) (s : σ) : disk.ChangesOnly files s s :=
  ⟨rfl, fun _ _ => rfl⟩

theorem trans (h : disk.ChangesOnly files s s') (h' : disk.ChangesOnly files s' s'') :
    disk.ChangesOnly files s s'' :=
  ⟨h'.file?.trans h.file?, fun file hfile =>
    (h'.content? file hfile).trans (h.content? file hfile)⟩

theorem mono (h : disk.ChangesOnly files s s') (hmore : ∀ file, files file → more file) :
    disk.ChangesOnly more s s' :=
  ⟨h.file?, fun file hfile => h.content? file fun hchanged => hfile (hmore file hchanged)⟩

theorem texts_eq (h : disk.ChangesOnly files s s') {file : disk.File} (hfile : ¬ files file) :
    disk.texts s' file = disk.texts s file := by
  rw [texts, h.content? file hfile, texts]

end ChangesOnly

def Same (disk : Disk σ) : σ → σ → Prop := disk.ChangesOnly fun _ => False

theorem Same.changesOnly {s s' : σ} (h : disk.Same s s') (files : disk.File → Prop) :
    disk.ChangesOnly files s s' := h.mono fun _ hfalse => hfalse.elim

theorem Same.texts_eq {s s' : σ} (h : disk.Same s s') : disk.texts s' = disk.texts s :=
  funext fun _ => ChangesOnly.texts_eq h id

end Disk

/-- A host that keeps its files on a disk. -/
structure Host.Uses {σ : Type} (host : Host (StateM σ)) (disk : Disk σ) : Prop where
  readFile (path : Text) (s : σ) : disk.Same s ((host.readFile path).run s).2
  readFile_ok {path text : Text} {s : σ} : ((host.readFile path).run s).1 = .ok text →
    ∃ file, disk.file? s path = some file ∧ disk.texts s file = some text
  writeFile {path : Text} {s : σ} {file : disk.File} (text : Text) :
    disk.file? s path = some file →
      disk.ChangesOnly (· = file) s ((host.writeFile path text).run s).2
  writeFile_ok {path text : Text} {s : σ} {file : disk.File} : disk.file? s path = some file →
    ((host.writeFile path text).run s).1 = .ok () →
      disk.texts ((host.writeFile path text).run s).2 file = some text
  print (text : Text) (s : σ) : disk.Same s ((host.print text).run s).2
  report (text : Text) (s : σ) : disk.Same s ((host.report text).run s).2
  reported_readFile (path : Text) (s : σ) :
    disk.reported ((host.readFile path).run s).2 = disk.reported s
  reported_writeFile (path text : Text) (s : σ) :
    disk.reported ((host.writeFile path text).run s).2 = disk.reported s
  reported_print (text : Text) (s : σ) :
    disk.reported ((host.print text).run s).2 = disk.reported s
  reported_report (text : Text) (s : σ) :
    disk.reported ((host.report text).run s).2 = disk.reported s ++ text

namespace FileTree

def file? (tree : FileTree) (directory : List Text) (path : Text) : Option (List Text) :=
  match tree.locate directory path with
  | .ok place => if (tree.files.lookup place).isSome then some place else none
  | .error _ => none

theorem file?_eq_some {tree : FileTree} {directory place : List Text} {path : Text}
    (h : tree.file? directory path = some place) :
    tree.locate directory path = .ok place ∧ ∃ content, tree.files.lookup place = some content := by
  unfold file? at h
  split at h
  · next found hfound =>
      split at h
      · next hcontent =>
          cases h
          exact ⟨hfound, Option.isSome_iff_exists.mp hcontent⟩
      · cases h
  · cases h

theorem entry?_eq_file {tree : FileTree} {place : List Text} {content : Content} :
    tree.entry? place = some (.file content) ↔ tree.files.lookup place = some content := by
  unfold entry?
  split
  · next found hfound => simp [hfound]
  · next hnone =>
      rw [hnone]
      split <;> simp

theorem lookup_cons (here other : List Text) (held : Content)
    (files : List (List Text × Content)) :
    ((here, held) :: files).lookup other =
      if other = here then some held else files.lookup other := by
  by_cases h : other = here
  · subst h
    simp
  · rw [List.lookup_cons, beq_eq_false_iff_ne.mpr h, if_neg h]

theorem lookup_replaceFile (place other : List Text) (content : Content)
    (files : List (List Text × Content)) :
    (replaceFile place content files).lookup other =
      if other = place then some content else files.lookup other := by
  induction files with
  | nil => exact lookup_cons place other content []
  | cons file files ih =>
      obtain ⟨here, held⟩ := file
      rw [replaceFile]
      by_cases hhere : here = place
      · subst hhere
        simp only [if_true, lookup_cons]
        split <;> rfl
      · simp only [if_neg hhere, lookup_cons, ih]
        by_cases h : other = here
        · subst h
          simp [hhere]
        · simp [h]

theorem map_fst_replaceFile {place : List Text} {files : List (List Text × Content)}
    (content : Content) (h : (files.lookup place).isSome) :
    (replaceFile place content files).map (·.1) = files.map (·.1) := by
  induction files with
  | nil => exact nomatch h
  | cons file files ih =>
      obtain ⟨here, held⟩ := file
      by_cases hhere : here = place
      · simp [replaceFile, hhere]
      · rw [lookup_cons, if_neg (Ne.symm hhere)] at h
        simp [replaceFile, hhere, ih h]

def Entry.isFile : Entry → Bool
  | .file _ => true
  | .directory => false

def kind? (tree : FileTree) (place : List Text) : Option Bool :=
  tree.entry? place |>.map Entry.isFile

theorem walk_congr {first second : FileTree}
    (h : ∀ place, first.kind? place = second.kind? place) (place : List Text) (parts : List Text) :
    first.walk place parts = second.walk place parts := by
  induction parts generalizing place with
  | nil => rfl
  | cons part parts ih =>
      have hplace := h place
      rw [kind?, kind?] at hplace
      rw [walk, walk]
      cases hfirst : first.entry? place with
      | none =>
          cases hsecond : second.entry? place with
          | none => rfl
          | some entry => simp [hfirst, hsecond] at hplace
      | some entry =>
          cases hsecond : second.entry? place with
          | none => simp [hfirst, hsecond] at hplace
          | some entry' =>
              rw [hfirst, hsecond] at hplace
              cases entry with
              | file content =>
                  cases entry' with
                  | file content' => rfl
                  | directory => cases hplace
              | directory =>
                  cases entry' with
                  | file content' => cases hplace
                  | directory => simp only [ih]

theorem kind?_replaceFile {tree : FileTree} {place : List Text} (content : Content)
    (h : (tree.files.lookup place).isSome) (other : List Text) :
    kind? { tree with files := replaceFile place content tree.files } other =
      tree.kind? other := by
  have hnames : (replaceFile place content tree.files).any (fun file => other.isPrefixOf file.1) =
      tree.files.any (fun file => other.isPrefixOf file.1) := by
    have hmap := congrArg (List.any · (other.isPrefixOf ·)) (map_fst_replaceFile content h)
    simpa only [List.any_map, Function.comp_def] using hmap
  obtain ⟨held, hheld⟩ := Option.isSome_iff_exists.mp h
  unfold kind? entry?
  simp only [lookup_replaceFile, hnames]
  by_cases hother : other = place
  · subst hother
    simp [hheld, Entry.isFile]
  · rw [if_neg hother]

theorem locate_replaceFile {tree : FileTree} {place : List Text} (content : Content)
    (h : (tree.files.lookup place).isSome) (directory : List Text) (path : Text) :
    locate { tree with files := replaceFile place content tree.files } directory path =
      tree.locate directory path := by
  unfold locate
  rw [walk_congr (kind?_replaceFile content h)]

theorem file?_replaceFile {tree : FileTree} {place : List Text} (content : Content)
    (h : (tree.files.lookup place).isSome) (directory : List Text) (path : Text) :
    file? { tree with files := replaceFile place content tree.files } directory path =
      tree.file? directory path := by
  unfold file?
  rw [locate_replaceFile content h]
  split
  · next found _ =>
      simp only [lookup_replaceFile]
      by_cases hfound : found = place
      · subst hfound
        simp [h]
      · rw [if_neg hfound]
  · rfl

/-- Writing replaces the file that a path leads to, or fails. -/
theorem writeFile_cases {tree : FileTree} {directory place : List Text} {path : Text}
    (text : Text) (h : tree.file? directory path = some place) :
    tree.writeFile directory path text =
        .ok { tree with files := replaceFile place (.text text) tree.files } ∨
      ∃ error, tree.writeFile directory path text = .error error := by
  obtain ⟨hlocate, content, hcontent⟩ := file?_eq_some h
  rw [writeFile, hlocate]
  simp only [entry?_eq_file.mpr hcontent]
  split
  · exact .inl rfl
  · exact .inr ⟨_, rfl⟩

theorem readFile_ok {tree : FileTree} {directory : List Text} {path text : Text}
    (h : tree.readFile directory path = .ok text) :
    ∃ place, tree.file? directory path = some place ∧
      tree.files.lookup place = some (.text text) := by
  unfold readFile at h
  split at h
  · cases h
  · next place hlocate =>
      split at h
      · cases h
      · cases h
      · cases h
      · next hentry =>
          cases h
          have hlookup := entry?_eq_file.mp hentry
          exact ⟨place, by simp [file?, hlocate, hlookup], hlookup⟩

end FileTree

namespace Session

def disk : Disk Session where
  File := List Text
  file? session := session.tree.file? session.directory
  content? session place := session.tree.files.lookup place
  reported session := session.reported

theorem run_writeFile (path text : Text) (session : Session) :
    (host.writeFile path text).run session =
      match session.tree.writeFile session.directory path text with
      | .ok tree => (.ok (), { session with tree := tree })
      | .error error => (.error error, session) := by
  cases hwritten : session.tree.writeFile session.directory path text <;>
    simp only [host, StateT.run, bind, StateT.bind, get, getThe, MonadStateOf.get, StateT.get,
      pure, hwritten] <;> rfl

theorem writeFile_cases {path : Text} (text : Text) {session : Session} {place : List Text}
    (h : disk.file? session path = some place) :
    (host.writeFile path text).run session =
        (.ok (), { session with tree := { session.tree with
          files := FileTree.replaceFile place (.text text) session.tree.files } }) ∨
      ∃ error, (host.writeFile path text).run session = (.error error, session) := by
  rw [run_writeFile]
  rcases FileTree.writeFile_cases text h with hwritten | ⟨error, hfailed⟩
  · exact .inl (by rw [hwritten])
  · exact .inr ⟨error, by rw [hfailed]⟩

theorem isSome_lookup {session : Session} {path : Text} {place : List Text}
    (h : disk.file? session path = some place) : (session.tree.files.lookup place).isSome := by
  obtain ⟨-, content, hcontent⟩ := FileTree.file?_eq_some h
  rw [hcontent]
  rfl

theorem texts_replaceFile (session : Session) (place : List Text) (text : Text) :
    disk.texts
      { session with
        tree := { session.tree with
          files := FileTree.replaceFile place (.text text) session.tree.files } } place =
      some text := by
  have hlookup : (FileTree.replaceFile place (.text text) session.tree.files).lookup place =
      some (.text text) := (FileTree.lookup_replaceFile _ _ _ _).trans (if_pos rfl)
  simp only [Disk.texts, disk, hlookup]

theorem uses_disk : host.Uses disk where
  readFile _ session := .refl _ session
  readFile_ok h := by
    obtain ⟨place, hplace, hcontent⟩ := FileTree.readFile_ok h
    refine ⟨place, hplace, ?_⟩
    simp only [Disk.texts, disk, hcontent]
  writeFile {path session place} text h := by
    rcases writeFile_cases text h with hrun | ⟨error, hrun⟩
    · rw [hrun]
      refine ⟨funext fun path => FileTree.file?_replaceFile _ (isSome_lookup h) _ path, ?_⟩
      intro other hother
      exact (FileTree.lookup_replaceFile place other _ _).trans (if_neg hother)
    · rw [hrun]
      exact .refl _ session
  writeFile_ok {path text session place} h hok := by
    rcases writeFile_cases text h with hrun | ⟨error, hrun⟩
    · rw [hrun]
      exact texts_replaceFile session place text
    · rw [hrun] at hok
      cases hok
  print _ _ := ⟨rfl, fun _ _ => rfl⟩
  report _ _ := ⟨rfl, fun _ _ => rfl⟩
  reported_readFile _ _ := rfl
  reported_writeFile path text session := by
    rw [run_writeFile]
    cases session.tree.writeFile session.directory path text <;> rfl
  reported_print _ _ := rfl
  reported_report _ _ := rfl

end Session

end Canonmark
