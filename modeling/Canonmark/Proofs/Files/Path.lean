import Canonmark.Files.Path
import Canonmark.Proofs.Text.Basic
import Canonmark.Proofs.Text.Split
import Mathlib.Data.List.Induction

/-!
# The way to a path

A path leads through its components. It lies in the directories whose components are the first
ones of it, and each of these is written as the shortest front of the path that leads there. They
are listed once each, from the inside out, up to the root or to the place where the path is read.
-/

namespace Canonmark.Path

variable {path front part directory : Text} {fuel : Nat}

def isName (part : Text) : Bool := !part.isEmpty && part ≠ ['.']

/-- The parts that a path leads through. Behind its front, a dot is none. -/
def components (path : Text) : List Text :=
  match parts path with
  | [] => []
  | first :: rest => (if first.isEmpty then [] else [first]) ++ rest.filter isName

theorem parts_append (front behind : Text) :
    parts (front ++ '/' :: behind) = parts front ++ parts behind := by
  simp only [parts, List.map_append, List.map_cons]
  exact (congrArg (List.map _) (Text.splitLines_append _ _)).trans List.map_append

theorem parts_single (h : '/' ∉ part) : parts part = [part] := by
  have hnoFeed :
      '\n' ∉ part.map fun c => if c = '/' then '\n' else if c = '\n' then '/' else c := by
    rw [List.mem_map]
    rintro ⟨c, hmem, hfeed⟩
    split at hfeed
    · next hslash => exact h (hslash ▸ hmem)
    · split at hfeed
      · exact absurd hfeed (by decide)
      · next hother => exact hother hfeed
  rw [parts, Text.splitLines_line hnoFeed, List.map_singleton, List.map_map]
  refine congrArg ([·]) ((List.map_congr_left fun c hmem => ?_).trans (List.map_id part))
  have hother : c ≠ '/' := fun hslash => h (hslash ▸ hmem)
  by_cases hfeed : c = '\n' <;> simp [hother, hfeed]

theorem isName_iff : isName part = true ↔ part ≠ [] ∧ part ≠ ['.'] := by
  simp [isName]

theorem components_append (front behind : Text) :
    components (front ++ '/' :: behind) = components front ++ (parts behind).filter isName := by
  obtain ⟨first, rest, hsame⟩ :=
    List.exists_cons_of_ne_nil (l := parts front) (by simp [parts, Text.splitLines_ne_nil])
  rw [components, components, parts_append, hsame, List.cons_append]
  simp only [List.filter_append, List.append_assoc]

theorem components_inside (front : Text) (h : '/' ∉ part) :
    components (front ++ '/' :: part) = components front ++ [part].filter isName := by
  rw [components_append, parts_single h]

theorem components_single (h : '/' ∉ part) :
    components part = if part.isEmpty then [] else [part] := by
  rw [components, parts_single h]
  simp

theorem components_name (h : '/' ∉ part) (hname : isName part = true) :
    components part = [part] := by
  rw [components_single h, if_neg (by simpa using (isName_iff.mp hname).1)]

theorem exists_last (path : Text) :
    '/' ∉ path ∨ ∃ front part, path = front ++ '/' :: part ∧ '/' ∉ part := by
  induction path with
  | nil => exact .inl List.not_mem_nil
  | cons c rest ih =>
      rcases ih with hsingle | ⟨front, part, rfl, hsingle⟩
      · by_cases hslash : c = '/'
        · exact .inr ⟨[], rest, by rw [hslash]; rfl, hsingle⟩
        · exact .inl (by simp [Ne.symm hslash, hsingle])
      · exact .inr ⟨c :: front, part, rfl, hsingle⟩

theorem length_components_concat (front : Text) (c : Char) :
    (components front).length ≤ (components (front ++ [c])).length := by
  by_cases hslash : c = '/'
  · rw [hslash, components_inside front List.not_mem_nil]
    simp
  rcases exists_last front with hsingle | ⟨front, part, rfl, hsingle⟩
  · rw [components_single hsingle, components_single (by simp [hsingle, Ne.symm hslash])]
    split <;> simp
  · rw [List.append_assoc, List.cons_append, components_inside front hsingle,
      components_inside front (by simp [hsingle, Ne.symm hslash])]
    have hnamed : isName part = true → isName (part ++ [c]) = true := by
      rw [isName_iff, isName_iff]
      rintro ⟨hfilled, -⟩
      refine ⟨by simp, fun hdot => hfilled ?_⟩
      simpa using congrArg List.dropLast hdot
    by_cases hname : isName part = true
    · simp [hname, hnamed hname]
    · simp [hname]

theorem length_components_mono {path : Text} (h : front <+: path) :
    (components front).length ≤ (components path).length := by
  obtain ⟨behind, rfl⟩ := h
  induction behind using List.reverseRecOn with
  | nil => simp
  | append_singleton behind c ih =>
      rw [← List.append_assoc]
      exact ih.trans (length_components_concat _ c)

theorem join_kept (h : isAbsolute path = true ∨ directory = []) : join directory path = path := by
  rcases h with habsolute | rfl
  · rw [join, habsolute, Bool.true_or, if_pos rfl]
  · simp [join]

theorem components_join (hrelative : isAbsolute path = false) (hfilled : directory ≠ []) :
    components (join directory path) = components directory ++ (parts path).filter isName := by
  have hinside : (isAbsolute path || directory.isEmpty) = false := by simp [hrelative, hfilled]
  rw [join, hinside, if_neg (by decide)]
  split
  · next hslash =>
      obtain ⟨front, rfl⟩ := List.getLast?_eq_some_iff.mp hslash
      rw [List.append_assoc, List.singleton_append, components_append,
        components_inside front List.not_mem_nil]
      simp [isName]
  · exact components_append directory path

inductive Shape : Text → Prop
  | nothing : Shape []
  | dot : Shape ['.']
  | root : Shape ['/']
  | single {part : Text} : '/' ∉ part → isName part = true → Shape part
  | inRoot {part : Text} : '/' ∉ part → part ≠ [] → Shape ('/' :: part)
  | inside {front part : Text} : front ≠ [] → '/' ∉ part → Shape (front ++ '/' :: part)

theorem shape (path : Text) : Shape path := by
  rcases exists_last path with hsingle | ⟨front, part, rfl, hsingle⟩
  · by_cases hempty : path = []
    · exact hempty ▸ .nothing
    · by_cases hdot : path = ['.']
      · exact hdot ▸ .dot
      · exact .single hsingle (isName_iff.mpr ⟨hempty, hdot⟩)
  · by_cases htop : front = []
    · subst htop
      by_cases hempty : part = []
      · rw [hempty]
        exact .root
      · exact .inRoot hsingle hempty
    · exact .inside htop hsingle

inductive Ended : Text → Prop
  | nothing : Ended []
  | dot : Ended ['.']
  | root : Ended ['/']
  | single {part : Text} : '/' ∉ part → isName part = true → Ended part
  | inRoot {part : Text} : '/' ∉ part → isName part = true → Ended ('/' :: part)
  | inside {front part : Text} : front ≠ [] → '/' ∉ part → isName part = true →
      Ended (front ++ '/' :: part)

theorem rootLength_le (path : Text) : rootLength path ≤ 1 := by
  unfold rootLength
  split <;> simp

theorem rootLength_single (hsingle : '/' ∉ part) (hname : isName part = true) :
    rootLength part = 0 := by
  obtain ⟨-, hdot⟩ := isName_iff.mp hname
  unfold rootLength
  split
  · simp at hsingle
  · exact absurd rfl hdot
  · simp at hsingle
  · rfl

theorem takeWhile_last (front : Text) (hsingle : '/' ∉ part) :
    ((front ++ '/' :: part).reverse.takeWhile (· ≠ '/')).reverse = part := by
  rw [List.reverse_append, List.reverse_cons, List.append_assoc, Text.takeWhile_of_stop,
    List.reverse_reverse]
  · intro c hmem
    have hother : c ≠ '/' := fun hslash => hsingle (hslash ▸ List.mem_reverse.mp hmem)
    simpa using hother
  · simp

theorem takeWhile_single (hsingle : '/' ∉ part) :
    (part.reverse.takeWhile (· ≠ '/')).reverse = part := by
  rw [List.takeWhile_eq_self_iff.mpr, List.reverse_reverse]
  intro c hmem
  have hother : c ≠ '/' := fun hslash => hsingle (hslash ▸ List.mem_reverse.mp hmem)
  simpa using hother

theorem splitLast_inside (hfilled : front ≠ []) (hsingle : '/' ∉ part) :
    splitLast (front ++ '/' :: part) = (front, part) := by
  have hshort : rootLength (front ++ '/' :: part) ≤ front.length :=
    (rootLength_le _).trans (List.length_pos_iff.mpr hfilled)
  have hlast : (((front ++ '/' :: part).drop (rootLength (front ++ '/' :: part))).reverse.takeWhile
      (· ≠ '/')).reverse = part := by
    rw [List.drop_append_of_le_length hshort, takeWhile_last _ hsingle]
  have hbefore : (front ++ '/' :: part).take ((front ++ '/' :: part).length - part.length) =
      front ++ ['/'] := by
    have hsplit : front ++ '/' :: part = (front ++ ['/']) ++ part := by simp
    rw [hsplit, List.length_append, Nat.add_sub_cancel, List.take_left]
  rw [splitLast]
  simp only [hlast, hbefore]
  rw [if_pos (by simp; omega), List.dropLast_concat]

theorem splitLast_inRoot (hsingle : '/' ∉ part) : splitLast ('/' :: part) = (['/'], part) := by
  have hlast : ((('/' :: part).drop (rootLength ('/' :: part))).reverse.takeWhile
      (· ≠ '/')).reverse = part := takeWhile_single hsingle
  rw [splitLast]
  simp only [hlast]
  rw [List.length_cons, Nat.add_sub_cancel_left]
  rfl

theorem splitLast_single (hsingle : '/' ∉ part) (hname : isName part = true) :
    splitLast part = ([], part) := by
  have hlast : ((part.drop (rootLength part)).reverse.takeWhile (· ≠ '/')).reverse = part := by
    rw [rootLength_single hsingle hname, List.drop_zero, takeWhile_single hsingle]
  rw [splitLast]
  simp only [hlast]
  simp

theorem trimEnd_step (hlong : rootLength path < path.length)
    (hsplit : splitLast path = (front, part)) :
    trimEnd (fuel + 1) path = if isName part then path else trimEnd fuel front := by
  rw [trimEnd, if_neg (Nat.not_le.mpr hlong), hsplit]
  by_cases hname : isName part = true
  · have hother := isName_iff.mp hname
    simp [hname, hother]
  · have hend : part.isEmpty || part = ['.'] := by
      simpa [isName_iff, or_iff_not_imp_left] using hname
    rw [if_neg hname]
    exact if_pos hend

structure Trims (path trimmed : Text) : Prop where
  front : trimmed <+: path
  root : isAbsolute trimmed = isAbsolute path
  components : components trimmed = components path
  ended : Ended trimmed

theorem trims_refl (hended : Ended path) : Trims path path :=
  ⟨List.prefix_rfl, rfl, rfl, hended⟩

theorem trims_trimEnd (henough : path.length ≤ fuel) : Trims path (trimEnd fuel path) := by
  induction fuel generalizing path with
  | zero =>
      obtain rfl := List.eq_nil_of_length_eq_zero (Nat.le_zero.mp henough)
      exact trims_refl .nothing
  | succ fuel ih =>
      cases shape path with
      | nothing => exact trims_refl .nothing
      | dot => exact trims_refl .dot
      | root => exact trims_refl .root
      | single hsingle hname =>
          have hlong : rootLength path < path.length := by
            rw [rootLength_single hsingle hname]
            exact List.length_pos_iff.mpr (isName_iff.mp hname).1
          rw [trimEnd_step hlong (splitLast_single hsingle hname), if_pos hname]
          exact trims_refl (.single hsingle hname)
      | @inRoot part hsingle hfilled =>
          have hlong : rootLength ('/' :: part) < ('/' :: part).length :=
            Nat.lt_succ_of_le (List.length_pos_iff.mpr hfilled)
          rw [trimEnd_step hlong (splitLast_inRoot hsingle)]
          split
          · next hname => exact trims_refl (.inRoot hsingle hname)
          · next hunnamed =>
              have htop : trimEnd fuel ['/'] = ['/'] := by cases fuel <;> rfl
              have hsame := components_inside [] hsingle
              rw [htop]
              refine ⟨⟨part, rfl⟩, rfl, ?_, .root⟩
              rw [List.nil_append] at hsame
              rw [hsame, List.filter_cons_of_neg hunnamed]
              rfl
      | @inside front part hfilled hsingle =>
          have hlong : rootLength (front ++ '/' :: part) < (front ++ '/' :: part).length := by
            have hsome := List.length_pos_iff.mpr hfilled
            have hshort := rootLength_le (front ++ '/' :: part)
            simp only [List.length_append, List.length_cons]
            omega
          rw [trimEnd_step hlong (splitLast_inside hfilled hsingle)]
          split
          · next hname => exact trims_refl (.inside hfilled hsingle hname)
          · next hunnamed =>
              have hshorter : front.length ≤ fuel := by
                simp only [List.length_append, List.length_cons] at henough
                omega
              obtain ⟨hstarts, hroot, hsame, hended⟩ := ih hshorter
              refine ⟨hstarts.trans (List.prefix_append _ _), hroot.trans ?_, ?_, hended⟩
              · rw [isAbsolute, isAbsolute, List.head?_append_of_ne_nil _ hfilled]
              · rw [hsame, components_inside front hsingle, List.filter_cons_of_neg hunnamed,
                  List.filter_nil, List.append_nil]

/-- Nothing can be left out at the end of a path without losing a component of it. -/
def Shortest (path : Text) : Prop :=
  ∀ front, front <+: path → isAbsolute front = isAbsolute path →
    components front = components path → front = path

theorem eq_of_inside (front : Text) {other : Text} (hsingle : '/' ∉ part)
    (hname : isName part = true) (hstarts : other <+: front ++ '/' :: part)
    (hsame : components other = components (front ++ '/' :: part)) :
    other = front ++ '/' :: part := by
  rw [components_inside front hsingle, List.filter_cons_of_pos hname, List.filter_nil] at hsame
  have hslashed : front ++ ['/'] <+: front ++ '/' :: part := ⟨part, by simp⟩
  rcases List.prefix_or_prefix_of_prefix hstarts hslashed with hshort | ⟨rest, rfl⟩
  · have hfewer := length_components_mono hshort
    rw [hsame, components_inside front List.not_mem_nil] at hfewer
    simp only [isName, List.isEmpty_nil, Bool.not_true, Bool.false_and, Bool.false_eq_true,
      not_false_eq_true, List.filter_cons_of_neg, List.filter_nil, List.append_nil,
      List.length_append, List.length_singleton] at hfewer
    omega
  · rw [List.append_assoc, List.singleton_append] at hstarts hsame ⊢
    have hinner : rest <+: part := by simpa using hstarts
    have hsingle' : '/' ∉ rest := fun hmem => hsingle (hinner.subset hmem)
    rw [components_inside front hsingle', List.append_cancel_left_eq] at hsame
    have hkept : part ∈ [rest].filter isName := hsame ▸ List.mem_singleton_self part
    rw [List.mem_singleton.mp (List.mem_filter.mp hkept).1]

theorem Ended.shortest (h : Ended path) : Shortest path := by
  intro other hstarts hroot hsame
  cases h with
  | nothing => exact List.prefix_nil.mp hstarts
  | dot =>
      rcases List.prefix_cons_iff.mp hstarts with rfl | ⟨rest, rfl, hends⟩
      · exact absurd hsame (by decide)
      · rw [List.prefix_nil.mp hends]
  | root =>
      rcases List.prefix_cons_iff.mp hstarts with rfl | ⟨rest, rfl, hends⟩
      · exact absurd hroot (by decide)
      · rw [List.prefix_nil.mp hends]
  | single hsingle hname =>
      have hsingle' : '/' ∉ other := fun hmem => hsingle (hstarts.subset hmem)
      rw [components_name hsingle hname, components_single hsingle'] at hsame
      split at hsame
      · exact absurd hsame.symm (List.cons_ne_nil _ _)
      · exact List.singleton_inj.mp hsame
  | inRoot hsingle hname => exact eq_of_inside [] hsingle hname hstarts hsame
  | @inside front _ _ hsingle hname => exact eq_of_inside front hsingle hname hstarts hsame

/-! ## The directory of a path -/

/-- The directory that a path is in, written as the shortest front that leads there. -/
structure LiesIn (path directory : Text) : Prop where
  front : directory <+: path
  root : isAbsolute directory = isAbsolute path
  components : ∃ last, components path = components directory ++ [last]
  shortest : Shortest directory

theorem Ended.parent?_cases {trimmed : Text} (hended : Ended trimmed)
    (hsame : trimEnd path.length path = trimmed) :
    parent? path = none ∧ components trimmed = [] ∨
      ∃ directory, parent? path = some directory ∧ LiesIn trimmed directory := by
  cases hended with
  | nothing => exact .inl ⟨by simp [parent?, hsame, rootLength], rfl⟩
  | dot =>
      refine .inr ⟨[], by simp [parent?, hsame, rootLength], List.nil_prefix, rfl, ⟨['.'], rfl⟩, ?_⟩
      exact Ended.nothing.shortest
  | root => exact .inl ⟨by simp [parent?, hsame, rootLength], rfl⟩
  | single hsingle hname =>
      have hfilled := (isName_iff.mp hname).1
      refine .inr ⟨[], ?_, List.nil_prefix, ?_, ⟨trimmed, ?_⟩, Ended.nothing.shortest⟩
      · simp [parent?, hsame, rootLength_single hsingle hname, hfilled,
          splitLast_single hsingle hname, trimEnd]
      · cases trimmed with
        | nil => rfl
        | cons c rest =>
            have hother : c ≠ '/' := fun hslash => hsingle (hslash ▸ List.mem_cons_self)
            simp [isAbsolute, hother]
      · exact components_name hsingle hname
  | @inRoot part hsingle hname =>
      have hfilled := (isName_iff.mp hname).1
      refine .inr ⟨['/'], ?_, ⟨part, rfl⟩, rfl, ⟨part, ?_⟩, Ended.root.shortest⟩
      · simp [parent?, hsame, rootLength, hfilled, splitLast_inRoot hsingle, trimEnd]
      · have hinRoot := components_inside [] hsingle
        rw [List.filter_cons_of_pos hname] at hinRoot
        exact hinRoot
  | @inside front part hfilled hsingle hname =>
      obtain ⟨hstarts, hroot, hinner, hended⟩ := trims_trimEnd (le_refl front.length)
      have hlong : ¬ (front ++ '/' :: part).length ≤ rootLength (front ++ '/' :: part) := by
        have hsome := List.length_pos_iff.mpr hfilled
        have hshort := rootLength_le (front ++ '/' :: part)
        simp only [List.length_append, List.length_cons]
        omega
      refine .inr ⟨trimEnd front.length front, ?_, hstarts.trans (List.prefix_append _ _), ?_,
        ⟨part, ?_⟩, hended.shortest⟩
      · simp only [parent?, hsame]
        rw [if_neg hlong, splitLast_inside hfilled hsingle]
      · rw [hroot, isAbsolute, isAbsolute, List.head?_append_of_ne_nil _ hfilled]
      · rw [hinner, components_inside front hsingle, List.filter_cons_of_pos hname, List.filter_nil]

theorem parent?_cases (path : Text) :
    parent? path = none ∧ components path = [] ∨
      ∃ directory, parent? path = some directory ∧ LiesIn path directory := by
  obtain ⟨hstarts, hroot, hsame, hended⟩ := trims_trimEnd (le_refl path.length)
  rcases hended.parent?_cases rfl with ⟨hnone, hnothing⟩ | ⟨directory, hsome, hinner⟩
  · exact .inl ⟨hnone, hsame ▸ hnothing⟩
  · exact .inr ⟨directory, hsome, hinner.front.trans hstarts, hinner.root.trans hroot,
      hsame ▸ hinner.components, hinner.shortest⟩

theorem LiesIn.length_lt (h : LiesIn path directory) : directory.length < path.length := by
  obtain ⟨last, hsame⟩ := h.components
  refine lt_of_le_of_ne h.front.length_le fun hequal => ?_
  rw [h.front.eq_of_length hequal] at hsame
  simpa using congrArg List.length hsame

/-- A directory on the way to a path, not the path itself: its components are the first ones of
the path, and it is the shortest front of the path that leads there. -/
structure IsAbove (directory path : Text) : Prop where
  front : directory <+: path
  root : isAbsolute directory = isAbsolute path
  components : components directory <+: components path
  fewer : (Path.components directory).length < (Path.components path).length
  shortest : Shortest directory

theorem ancestorsFrom_eq {more : Nat} (henough : path.length < fuel)
    (henough' : path.length < more) : ancestorsFrom fuel path = ancestorsFrom more path := by
  induction fuel generalizing path more with
  | zero => exact absurd henough (Nat.not_lt_zero _)
  | succ fuel ih =>
      obtain ⟨more, rfl⟩ := Nat.exists_eq_add_one_of_ne_zero (Nat.ne_zero_of_lt henough')
      rw [ancestorsFrom, ancestorsFrom]
      rcases parent?_cases path with ⟨hnone, -⟩ | ⟨directory, hsome, hinner⟩
      · rw [hnone]
      · have hshorter := hinner.length_lt
        rw [hsome]
        exact congrArg (path :: ·) (ih (by omega) (by omega))

theorem ancestors_eq (path : Text) :
    ancestors path = path :: match parent? path with
      | some directory => ancestors directory
      | none => [] := by
  rw [ancestors, ancestorsFrom]
  rcases parent?_cases path with ⟨hnone, -⟩ | ⟨directory, hsome, hinner⟩
  · rw [hnone]
  · rw [hsome]
    exact congrArg (path :: ·) (ancestorsFrom_eq hinner.length_lt (Nat.lt_succ_self _))

theorem LiesIn.isAbove (h : LiesIn path directory) : IsAbove directory path := by
  obtain ⟨last, hsame⟩ := h.components
  exact ⟨h.front, h.root, ⟨[last], hsame.symm⟩, by simp [hsame], h.shortest⟩

theorem IsAbove.trans {inner outer : Text} (h : IsAbove inner path)
    (hfurther : IsAbove outer inner) :
    IsAbove outer path :=
  ⟨hfurther.front.trans h.front, hfurther.root.trans h.root, hfurther.components.trans h.components,
    hfurther.fewer.trans h.fewer, hfurther.shortest⟩

theorem LiesIn.isAbove_iff {outer : Text} (h : LiesIn path directory) :
    IsAbove outer path ↔ outer = directory ∨ IsAbove outer directory := by
  constructor
  · intro habove
    obtain ⟨last, hsame⟩ := h.components
    have hfirst : Path.components outer <+: Path.components directory := by
      have hfewer := habove.fewer
      rw [hsame, List.length_append, List.length_singleton] at hfewer
      exact List.prefix_of_prefix_length_le habove.components ⟨[last], hsame.symm⟩ (by omega)
    by_cases hequal : Path.components outer = Path.components directory
    · have hroot := habove.root.trans h.root.symm
      rcases List.prefix_or_prefix_of_prefix habove.front h.front with hstarts | hstarts
      · exact .inl (h.shortest outer hstarts hroot hequal)
      · exact .inl (habove.shortest directory hstarts hroot.symm hequal.symm).symm
    · have hfewer : (Path.components outer).length < (Path.components directory).length :=
        lt_of_le_of_ne hfirst.length_le fun hlength => hequal (hfirst.eq_of_length hlength)
      refine .inr ⟨?_, habove.root.trans h.root.symm, hfirst, hfewer, habove.shortest⟩
      rcases List.prefix_or_prefix_of_prefix habove.front h.front with hstarts | hstarts
      · exact hstarts
      · exact absurd (length_components_mono hstarts) (Nat.not_le.mpr hfewer)
  · rintro (rfl | habove)
    · exact h.isAbove
    · exact h.isAbove.trans habove

def Encloses (directory path : Text) : Prop := directory = path ∨ IsAbove directory path

theorem mem_ancestors_iff : directory ∈ ancestors path ↔ Encloses directory path := by
  induction hlength : path.length using Nat.strongRecOn generalizing path with
  | ind n ih =>
      rw [ancestors_eq, List.mem_cons, Encloses]
      rcases parent?_cases path with ⟨hnone, hnothing⟩ | ⟨inner, hsome, hlies⟩
      · have htop : ¬ IsAbove directory path := fun habove => by
          simpa [hnothing] using habove.fewer
        simp [hnone, htop]
      · rw [hsome, hlies.isAbove_iff]
        exact or_congr_right (ih _ (hlength ▸ hlies.length_lt) rfl)

/-- Directories are visited from the inside out. -/
theorem ancestors_outward (path : Text) :
    (ancestors path).Pairwise fun inner outer =>
      (components outer).length < (components inner).length := by
  induction hlength : path.length using Nat.strongRecOn generalizing path with
  | ind n ih =>
      rw [ancestors_eq]
      rcases parent?_cases path with ⟨hnone, -⟩ | ⟨inner, hsome, hlies⟩
      · rw [hnone]
        exact List.pairwise_singleton _ path
      · rw [hsome]
        have hshorter := hlength ▸ hlies.length_lt
        refine List.pairwise_cons.mpr ⟨fun outer hmem => ?_, ih _ hshorter inner rfl⟩
        exact (hlies.isAbove_iff.mpr (mem_ancestors_iff.mp hmem)).fewer

end Canonmark.Path
