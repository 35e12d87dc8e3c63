import Canonmark.Config.Configuration
import Canonmark.Files.Session
import Canonmark.Proofs.Files.Path

/-!
# Finding a configuration file

The directories around a path are searched from the inside out, each once, so that the deepest of
those with a configuration file decides. None is found only where none of them has one.
-/

namespace Canonmark.Configuration

/-- Where elements come in descending order, the first with a property is the greatest. -/
theorem find?_descending {α : Type} {measure : α → Nat} {p : α → Bool} {elements : List α}
    (hdescending : elements.Pairwise fun a b => measure b < measure a) {a : α} :
    elements.find? p = some a ↔
      a ∈ elements ∧ p a = true ∧ ∀ b ∈ elements, p b = true → measure b ≤ measure a := by
  induction elements with
  | nil => simp
  | cons first rest ih =>
      obtain ⟨habove, hlater⟩ := List.pairwise_cons.mp hdescending
      by_cases hholds : p first = true
      · rw [List.find?_cons_of_pos hholds, Option.some_inj]
        constructor
        · rintro rfl
          refine ⟨List.mem_cons_self, hholds, List.forall_mem_cons.mpr ⟨fun _ => le_refl _, ?_⟩⟩
          exact fun b hmem _ => (habove b hmem).le
        · rintro ⟨hmem, -, hgreatest⟩
          rcases List.mem_cons.mp hmem with rfl | hmem
          · rfl
          · exact absurd (habove a hmem)
              (Nat.not_lt.mpr (hgreatest first List.mem_cons_self hholds))
      · rw [List.find?_cons_of_neg hholds, ih hlater]
        constructor
        · rintro ⟨hmem, hfound, hgreatest⟩
          exact ⟨List.mem_cons_of_mem _ hmem, hfound, List.forall_mem_cons.mpr
            ⟨fun hother => absurd hother hholds, hgreatest⟩⟩
        · rintro ⟨hmem, hfound, hgreatest⟩
          have hother : a ≠ first := fun hsame => hholds (hsame ▸ hfound)
          exact ⟨(List.mem_cons.mp hmem).resolve_left hother, hfound,
            (List.forall_mem_cons.mp hgreatest).2⟩

variable {σ : Type} {host : Host (StateM σ)} {s : σ} {present : Text → Bool}

theorem run_discover (hlooks : ∀ path, (host.hasEntry path).run s = (present path, s))
    (directories : List Text) :
    (discover host directories).run s =
      ((directories.find? fun directory => present (Path.join directory fileName)).map
        (Path.join · fileName), s) := by
  induction directories with
  | nil => rfl
  | cons directory rest ih =>
      rw [discover, StateT.run_bind, hlooks, List.find?_cons]
      cases hholds : present (Path.join directory fileName) with
      | true => rfl
      | false => exact ih

/-- The search ends, and leaves everything as it is. What it finds is in the deepest of the
directories that enclose the start and have a file of that name. -/
theorem discover_deepest (hlooks : ∀ path, (host.hasEntry path).run s = (present path, s))
    (start : Text) :
    ∃ found, (discover host (Path.ancestors start)).run s = (found, s) ∧
      (∀ path, found = some path ↔
        ∃ directory, Path.Encloses directory start ∧ path = Path.join directory fileName ∧
          present path = true ∧
          ∀ other, Path.Encloses other start → present (Path.join other fileName) = true →
            (Path.components other).length ≤ (Path.components directory).length) ∧
      (found = none ↔ ∀ directory, Path.Encloses directory start →
        present (Path.join directory fileName) = false) := by
  refine ⟨_, run_discover hlooks _, fun path => ?_, ?_⟩
  · rw [Option.map_eq_some_iff]
    simp only [find?_descending (Path.ancestors_outward start), Path.mem_ancestors_iff]
    constructor
    · rintro ⟨directory, ⟨hencloses, hholds, hdeepest⟩, rfl⟩
      exact ⟨directory, hencloses, rfl, hholds, hdeepest⟩
    · rintro ⟨directory, hencloses, rfl, hholds, hdeepest⟩
      exact ⟨directory, ⟨hencloses, hholds, hdeepest⟩, rfl⟩
  · simp only [Option.map_eq_none_iff, List.find?_eq_none, Path.mem_ancestors_iff,
      Bool.not_eq_true]

/-- Of two files above the start, the one that is not in the root is found. -/
theorem discover_deepest_between :
    let files : List (List Text × Content) :=
      [(["rw.toml".toList], .text []), (["p".toList, "rw.toml".toList], .text []),
        (["p".toList, "q".toList, "a.md".toList], .text [])]
    let session : Session := { tree := { files := files } }
    let start : Text := "/p/./q//".toList
    let present := session.tree.hasEntry session.directory
    (∀ path, (Session.host.hasEntry path).run session = (present path, session)) ∧
      (discover Session.host (Path.ancestors start)).run session =
        (some "/p/rw.toml".toList, session) ∧
      ∃ directory, Path.Encloses directory start ∧
        "/p/rw.toml".toList = Path.join directory fileName ∧
        ∀ other, Path.Encloses other start → present (Path.join other fileName) = true →
          (Path.components other).length ≤ (Path.components directory).length := by
  intro files session start present
  have hlooks : ∀ path, (Session.host.hasEntry path).run session = (present path, session) :=
    fun _ => rfl
  obtain ⟨found, hrun, hholds, -⟩ := discover_deepest hlooks start
  have hnearest : found = some "/p/rw.toml".toList := by
    have hresult : ((discover Session.host (Path.ancestors start)).run session).1 =
        some "/p/rw.toml".toList := by decide +kernel
    rw [← hresult, hrun]
  obtain ⟨directory, hencloses, hpath, -, hdeepest⟩ := (hholds _).mp hnearest
  exact ⟨hlooks, hnearest ▸ hrun, directory, hencloses, hpath, hdeepest⟩

end Canonmark.Configuration
