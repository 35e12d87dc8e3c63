import Canonmark.Proofs.Text.Splice
import Mathlib.Data.List.Basic

/-!
# What splicing writes

Edits that do not overlap are all applied, whatever order they were given in: at each place of the
text stands what is put there, and then the character of the text unless it is replaced. Of other
edits those are applied that a scan in the order of their starts keeps.
-/

namespace Canonmark.Splice

def replaces (edits : List Edit) (position : Nat) : Bool :=
  edits.any fun edit => edit.span.start ≤ position && position < edit.span.stop

def putAt (edits : List Edit) (position : Nat) : Text :=
  (edits.filter (·.span.start = position)).flatMap (·.text)

/-- What becomes of one place of a text; the place behind the last character has none. -/
def placed (edits : List Edit) (text : Text) (position : Nat) : Text :=
  putAt edits position ++ if replaces edits position then [] else text[position]?.toList

/-- A text with every span of an edit replaced and every other character kept, place by place. -/
def spliced (edits : List Edit) (text : Text) : Text :=
  (List.range (text.length + 1)).flatMap (placed edits text)

section

variable {text : Text} {edit : Edit} {rest : List Edit} {length cursor position : Nat}

theorem Chain.placed_before (h : Chain length cursor rest) (hlt : position < cursor) :
    placed rest text position = text[position]?.toList := by
  have hbehind (edit : Edit) (hmem : edit ∈ rest) : position < edit.span.start :=
    Nat.lt_of_lt_of_le hlt (h.start_le edit hmem)
  have hnothing : putAt rest position = [] := by
    rw [putAt, List.filter_eq_nil_iff.mpr fun edit hmem => ?_, List.flatMap_nil]
    simpa using Nat.ne_of_gt (hbehind edit hmem)
  have hkept : replaces rest position = false := by
    refine List.any_eq_false.mpr fun edit hmem => ?_
    simpa using fun hle => absurd hle (Nat.not_le.mpr (hbehind edit hmem))
  rw [placed, hnothing, hkept]
  rfl

theorem Chain.placed_cons (h : Chain length edit.span.stop rest) :
    placed (edit :: rest) text position =
      (if edit.span.start = position then edit.text else []) ++
        if edit.span.start ≤ position ∧ position < edit.span.stop then []
        else placed rest text position := by
  have hput : putAt (edit :: rest) position =
      (if edit.span.start = position then edit.text else []) ++ putAt rest position := by
    rw [putAt, List.filter_cons]
    by_cases hstarts : edit.span.start = position
    · simp [hstarts, putAt]
    · simp [hstarts, putAt]
  rw [placed, hput, List.append_assoc]
  congr 1
  by_cases hwithin : edit.span.start ≤ position ∧ position < edit.span.stop
  · have hnothing : putAt rest position = [] := by
      rw [putAt, List.filter_eq_nil_iff.mpr fun other hmem => ?_, List.flatMap_nil]
      have := h.start_le other hmem
      simp only [decide_eq_true_eq]
      omega
    have htaken : replaces (edit :: rest) position = true :=
      List.any_eq_true.mpr ⟨edit, List.mem_cons_self, by simpa using hwithin⟩
    rw [if_pos hwithin, hnothing, htaken]
    rfl
  · have hsame : replaces (edit :: rest) position = replaces rest position := by
      rw [replaces, List.any_cons, ← replaces]
      have hapart : ¬(edit.span.start ≤ position && position < edit.span.stop) = true := by
        simpa using hwithin
      rw [Bool.eq_false_iff.mpr hapart, Bool.false_or]
    rw [if_neg hwithin, hsame, placed]

theorem flatMap_getElem? (text : Text) (start size : Nat) :
    (List.range' start size).flatMap (fun i => text[i]?.toList) = (text.drop start).take size := by
  induction size generalizing start with
  | zero => simp
  | succ size ih =>
      rw [List.range'_succ, List.flatMap_cons, ih]
      cases hhere : text[start]? with
      | none =>
          have houtside := List.getElem?_eq_none_iff.mp hhere
          simp [List.drop_eq_nil_of_le houtside, List.drop_eq_nil_of_le
            (Nat.le_succ_of_le houtside)]
      | some c =>
          obtain ⟨hlt, rfl⟩ := List.getElem?_eq_some_iff.mp hhere
          rw [List.drop_eq_getElem_cons hlt]
          rfl

theorem Chain.flatMap_placed (h : Chain length edit.span.stop rest)
    (hinside : edit.span.stop ≤ text.length) :
    (List.range' edit.span.start (text.length + 1 - edit.span.start)).flatMap
        (placed (edit :: rest) text) =
      edit.text ++ (List.range' edit.span.stop (text.length + 1 - edit.span.stop)).flatMap
        (placed rest text) := by
  have hspan := edit.span.start_le_stop
  have hfirst : text.length + 1 - edit.span.start = text.length - edit.span.start + 1 := by omega
  have hlater : (List.range' (edit.span.start + 1) (text.length - edit.span.start)).flatMap
        (placed (edit :: rest) text) =
      (List.range' (edit.span.start + 1) (text.length - edit.span.start)).flatMap fun position =>
        if position < edit.span.stop then [] else placed rest text position := by
    refine List.flatMap_congr fun position hmem => ?_
    have := (List.mem_range'_1.mp hmem).1
    have hstarts : edit.span.start ≠ position := by omega
    have hpassed : edit.span.start ≤ position := by omega
    simp [h.placed_cons, hstarts, hpassed]
  rw [hfirst, List.range'_succ, List.flatMap_cons, hlater, h.placed_cons, if_pos rfl]
  rcases Nat.eq_or_lt_of_le hspan with hsame | hlt
  · have hhere : ¬(edit.span.start ≤ edit.span.start ∧ edit.span.start < edit.span.stop) := by omega
    have hsize : text.length + 1 - edit.span.stop = text.length - edit.span.start + 1 := by omega
    rw [if_neg hhere, List.append_assoc, hsize, ← hsame, List.range'_succ, List.flatMap_cons]
    congr 2
    refine List.flatMap_congr fun position hmem => ?_
    have := (List.mem_range'_1.mp hmem).1
    rw [if_neg (by omega)]
  · have hsize : text.length - edit.span.start =
        (edit.span.stop - (edit.span.start + 1)) + (text.length + 1 - edit.span.stop) := by omega
    have hmiddle : edit.span.start + 1 + (edit.span.stop - (edit.span.start + 1)) =
        edit.span.stop := by omega
    have hsplit := List.range'_append_1 (s := edit.span.start + 1)
      (m := edit.span.stop - (edit.span.start + 1)) (n := text.length + 1 - edit.span.stop)
    rw [hmiddle] at hsplit
    have htaken : (List.range' (edit.span.start + 1)
        (edit.span.stop - (edit.span.start + 1))).flatMap (fun position =>
          if position < edit.span.stop then [] else placed rest text position) = [] := by
      refine List.flatMap_eq_nil_iff.mpr fun position hmem => ?_
      have := (List.mem_range'_1.mp hmem).2
      rw [if_pos (by omega)]
    rw [if_pos ⟨Nat.le_refl _, hlt⟩, List.append_nil, hsize, ← hsplit, List.flatMap_append, htaken,
      List.nil_append]
    congr 1
    refine List.flatMap_congr fun position hmem => ?_
    have := (List.mem_range'_1.mp hmem).1
    rw [if_neg (by omega)]

/-- Applying a chain writes what becomes of the places, one behind the other. -/
theorem Chain.replace_eq {edits : List Edit} (h : Chain text.length cursor edits)
    (hle : cursor ≤ text.length) :
    replace cursor (text.drop cursor) edits =
      (List.range' cursor (text.length + 1 - cursor)).flatMap (placed edits text) := by
  induction edits generalizing cursor with
  | nil =>
      have hkept : placed [] text = fun i => text[i]?.toList := rfl
      rw [replace, hkept, flatMap_getElem?, List.take_of_length_le]
      rw [List.length_drop]
      omega
  | cons edit rest ih =>
      obtain ⟨hstart, hstop, hlater⟩ := h
      have hspan := edit.span.start_le_stop
      have hbehind : (text.drop cursor).drop (edit.span.stop - cursor) =
          text.drop edit.span.stop := by
        rw [List.drop_drop]
        congr 1
        omega
      have hsize : text.length + 1 - cursor =
          (edit.span.start - cursor) + (text.length + 1 - edit.span.start) := by omega
      have hmiddle : cursor + (edit.span.start - cursor) = edit.span.start := by omega
      have hsplit := List.range'_append_1 (s := cursor) (m := edit.span.start - cursor)
        (n := text.length + 1 - edit.span.start)
      rw [hmiddle] at hsplit
      have hbefore : (List.range' cursor (edit.span.start - cursor)).flatMap
          (placed (edit :: rest) text) = (text.drop cursor).take (edit.span.start - cursor) := by
        rw [← flatMap_getElem?]
        refine List.flatMap_congr fun position hmem => ?_
        have hlt := (List.mem_range'_1.mp hmem).2
        have hchain : Chain text.length edit.span.start (edit :: rest) :=
          ⟨Nat.le_refl _, hstop, hlater⟩
        exact hchain.placed_before (by omega)
      rw [replace, hbehind, ih hlater hstop, hsize, ← hsplit, List.flatMap_append, hbefore,
        hlater.flatMap_placed hstop, List.append_assoc]

theorem apply_eq_spliced_of_chain {edits : List Edit} (h : Chain text.length 0 edits) :
    apply edits text = spliced edits text := by
  have hwhole := h.replace_eq (Nat.zero_le _)
  rw [List.drop_zero, Nat.sub_zero, ← List.range_eq_range'] at hwhole
  rw [apply_of_chain h, hwhole, spliced]

end

/-! ## Edits in any order -/

/-- Edits of a text of `length` characters that do not get in each other's way. -/
structure Separate (length : Nat) (edits : List Edit) : Prop where
  inside : ∀ edit ∈ edits, edit.span.stop ≤ length
  starts : edits.Pairwise fun a b => a.span.start ≠ b.span.start
  apart : edits.Pairwise fun a b => a.span.stop ≤ b.span.start ∨ b.span.stop ≤ a.span.start

namespace Separate

variable {length : Nat} {edits others : List Edit}

theorem perm (h : Separate length edits) (hperm : others.Perm edits) : Separate length others where
  inside edit hmem := h.inside edit (hperm.mem_iff.mp hmem)
  starts := (hperm.pairwise_iff fun hne => Ne.symm hne).mpr h.starts
  apart := (hperm.pairwise_iff fun hapart => Or.symm hapart).mpr h.apart

theorem chain_of_ascending (h : Separate length edits)
    (hascends : edits.Pairwise (·.span.start ≤ ·.span.start)) {cursor : Nat}
    (hle : ∀ edit ∈ edits, cursor ≤ edit.span.start) : Chain length cursor edits := by
  induction edits generalizing cursor with
  | nil => trivial
  | cons edit rest ih =>
      obtain ⟨hfirst, hlater⟩ := List.pairwise_cons.mp hascends
      obtain ⟨hdiffers, hstarts⟩ := List.pairwise_cons.mp h.starts
      obtain ⟨hbeside, hapart⟩ := List.pairwise_cons.mp h.apart
      have hstop := h.inside edit List.mem_cons_self
      have hinner : Separate length rest :=
        ⟨fun other hmem => h.inside other (List.mem_cons_of_mem _ hmem), hstarts, hapart⟩
      refine ⟨hle edit List.mem_cons_self, hstop, ih hinner hlater fun other hmem => ?_⟩
      have := hfirst other hmem
      have := hdiffers other hmem
      have := other.span.start_le_stop
      rcases hbeside other hmem with hbefore | hbehind
      · exact hbefore
      · omega

theorem chain_sort (h : Separate length edits) : Chain length 0 (sort edits) :=
  (h.perm (sort_perm edits)).chain_of_ascending (pairwise_sort edits) fun _ _ => Nat.zero_le _

theorem putAt_perm (h : Separate length edits) (hperm : others.Perm edits) (position : Nat) :
    putAt others position = putAt edits position := by
  have hfiltered := hperm.filter (fun edit => decide (edit.span.start = position))
  have hfew : (edits.filter (·.span.start = position)).length ≤ 1 := by
    have hstarts := h.starts.filter (fun edit => decide (edit.span.start = position))
    cases hfound : edits.filter (·.span.start = position) with
    | nil => exact Nat.zero_le _
    | cons first rest =>
        cases rest with
        | nil => exact Nat.le_refl _
        | cons second rest =>
            rw [hfound] at hstarts
            have hall (edit : Edit) (hmem : edit ∈ first :: second :: rest) :
                edit.span.start = position := by
              rw [← hfound] at hmem
              simpa using (List.mem_filter.mp hmem).2
            have hdiffers := (List.pairwise_cons.mp hstarts).1 second List.mem_cons_self
            exact absurd ((hall first (by simp)).trans (hall second (by simp)).symm) hdiffers
  rw [putAt, putAt]
  cases hfound : edits.filter (·.span.start = position) with
  | nil => rw [hfound] at hfiltered; rw [hfiltered.eq_nil]
  | cons first rest =>
      rw [hfound] at hfiltered hfew
      obtain rfl : rest = [] :=
        List.eq_nil_of_length_eq_zero (Nat.le_zero.mp (Nat.le_of_succ_le_succ hfew))
      rw [List.perm_singleton.mp hfiltered]

theorem spliced_perm (h : Separate length edits) (hperm : others.Perm edits) (text : Text) :
    spliced others text = spliced edits text := by
  refine List.flatMap_congr fun position _ => ?_
  have hsame : replaces others position = replaces edits position := by
    rw [Bool.eq_iff_iff, replaces, replaces, List.any_eq_true, List.any_eq_true]
    exact exists_congr fun edit => and_congr_left' hperm.mem_iff
  rw [placed, placed, h.putAt_perm hperm, hsame]

theorem apply_eq {text : Text} (h : Separate text.length edits) (hperm : others.Perm edits) :
    apply others text = spliced edits text := by
  have hseparate := h.perm hperm
  have hchain := hseparate.chain_sort
  have hsorted : apply others text = apply (sort others) text := by
    rw [apply, apply, sort_eq_self (pairwise_sort others)]
  rw [hsorted, apply_eq_spliced_of_chain hchain, hseparate.spliced_perm (sort_perm others),
    h.spliced_perm hperm]

end Separate

/-! ## Edits that are kept -/

def startsNoLater (first second : Edit) : Bool := first.span.start ≤ second.span.start

/-- Keeps one more edit unless it starts before the end of the last one or reaches past the text. -/
def scanStep (length : Nat) (kept : List Edit) (edit : Edit) : List Edit :=
  if (kept.getLast?.any fun last => edit.span.start < last.span.stop) || length < edit.span.stop
  then kept
  else kept ++ [edit]

/-- The edits of a text of `length` characters that a scan in the stable order of starts keeps. -/
def scanned (length : Nat) (edits : List Edit) : List Edit :=
  (edits.mergeSort startsNoLater).foldl (scanStep length) []

theorem insertSorted_append {edit : Edit} {before behind : List Edit}
    (hfirst : ∀ other ∈ before, other.span.start < edit.span.start)
    (hlater : ∀ other ∈ behind, edit.span.start ≤ other.span.start) :
    insertSorted edit (before ++ behind) = before ++ edit :: behind := by
  induction before with
  | nil => exact insertSorted_of_le edit behind hlater
  | cons other rest ih =>
      have hlt := hfirst other List.mem_cons_self
      rw [List.cons_append, insertSorted, if_neg (Nat.not_le.mpr hlt),
        ih fun next hmem => hfirst next (List.mem_cons_of_mem _ hmem), List.cons_append]

theorem sort_eq_mergeSort (edits : List Edit) : sort edits = edits.mergeSort startsNoLater := by
  have htrans (a b c : Edit) (h : startsNoLater a b = true) (h' : startsNoLater b c = true) :
      startsNoLater a c = true := by
    simp only [startsNoLater, decide_eq_true_eq] at *
    exact Nat.le_trans h h'
  have htotal (a b : Edit) : (startsNoLater a b || startsNoLater b a) = true := by
    simpa [startsNoLater] using Nat.le_total a.span.start b.span.start
  induction edits with
  | nil => simp [sort]
  | cons edit rest ih =>
      obtain ⟨before, behind, hwhole, hsame, hfirst⟩ := List.mergeSort_cons htrans htotal edit rest
      have hsorted := List.pairwise_mergeSort htrans htotal (edit :: rest)
      rw [hwhole] at hsorted
      have hlater := (List.pairwise_cons.mp (List.pairwise_append.mp hsorted).2.1).1
      change insertSorted edit (sort rest) = _
      rw [ih, hsame, hwhole]
      refine insertSorted_append (fun other hmem => ?_) fun other hmem => ?_
      · simpa [startsNoLater] using hfirst other hmem
      · simpa [startsNoLater] using hlater other hmem

theorem foldl_scanStep (length : Nat) (kept edits : List Edit) :
    edits.foldl (scanStep length) kept =
      kept ++ keep length ((kept.getLast?.map (·.span.stop)).getD 0) edits := by
  induction edits generalizing kept with
  | nil => simp [keep]
  | cons edit rest ih =>
      have hdropped : (kept.getLast?.any fun last => decide (edit.span.start < last.span.stop)) =
          decide (edit.span.start < (kept.getLast?.map (·.span.stop)).getD 0) := by
        cases kept.getLast? <;> simp
      rw [List.foldl_cons, ih, scanStep, keep, hdropped]
      split
      · rfl
      · simp

theorem scanned_eq (length : Nat) (edits : List Edit) :
    scanned length edits = keep length 0 (sort edits) := by
  rw [scanned, foldl_scanStep, sort_eq_mergeSort]
  rfl

theorem keep_sublist (length cursor : Nat) (edits : List Edit) :
    (keep length cursor edits).Sublist edits := by
  induction edits generalizing cursor with
  | nil => exact List.Sublist.slnil
  | cons edit rest ih =>
      rw [keep]
      split
      · exact (ih _).cons edit
      · exact (ih _).cons_cons edit

theorem keep_keep (length cursor : Nat) (edits : List Edit) :
    keep length cursor (keep length cursor edits) = keep length cursor edits := by
  induction edits generalizing cursor with
  | nil => rfl
  | cons edit rest ih =>
      by_cases hdrops : (edit.span.start < cursor || length < edit.span.stop) = true
      · rw [keep, if_pos hdrops, ih]
      · rw [keep, if_neg hdrops, keep, if_neg hdrops, ih]

theorem apply_scanned (edits : List Edit) (text : Text) :
    apply (scanned text.length edits) text = apply edits text := by
  have hascends := (pairwise_sort edits).sublist (keep_sublist text.length 0 (sort edits))
  rw [scanned_eq, apply, sort_eq_self hascends, keep_keep, apply]

theorem chain_keep (edits : List Edit) (length cursor : Nat) :
    Chain length cursor (keep length cursor edits) := by
  induction edits generalizing cursor with
  | nil => trivial
  | cons edit rest ih =>
      rw [keep]
      split
      · exact ih cursor
      · next hkeeps =>
          simp only [Bool.or_eq_true, decide_eq_true_eq, not_or, Nat.not_lt] at hkeeps
          exact ⟨hkeeps.1, hkeeps.2, ih _⟩

/-- Where edits overlap, those that are kept put their texts in their places. -/
theorem apply_eq_spliced_scanned (edits : List Edit) (text : Text) :
    apply edits text = spliced (scanned text.length edits) text := by
  have hchain : Chain text.length 0 (scanned text.length edits) := by
    rw [scanned_eq]
    exact chain_keep _ _ _
  rw [← apply_scanned, apply_eq_spliced_of_chain hchain]

/--
Edits that do not get in each other's way are all applied, in whatever order they are given. For
any others the outcome is that of the edits that a scan in the order of their starts keeps.
-/
theorem apply_splices (edits others : List Edit) (text : Text) :
    (Separate text.length edits → others.Perm edits → apply others text = spliced edits text) ∧
      apply edits text = apply (scanned text.length edits) text ∧
      apply edits text = spliced (scanned text.length edits) text :=
  ⟨fun hseparate hperm => hseparate.apply_eq hperm, (apply_scanned edits text).symm,
    apply_eq_spliced_scanned edits text⟩

theorem apply_splices_touching_and_overlapping :
    let touching : List Edit :=
      [.insertion 4 [')'], .replacement 2 2 "xyz".toList, .replacement 1 1 "(".toList]
    let overlapping : List Edit :=
      [.replacement 0 3 "x".toList, .replacement 1 1 "y".toList, .insertion 3 ['z'],
        .replacement 3 6 "w".toList]
    (Separate "a bc d".toList.length touching ∧ touching.reverse.Perm touching ∧
      apply touching.reverse "a bc d".toList = spliced touching "a bc d".toList) ∧
    apply overlapping "abcd".toList =
      spliced (scanned "abcd".toList.length overlapping) "abcd".toList := by
  intro touching overlapping
  have hseparate : Separate "a bc d".toList.length touching :=
    ⟨by decide, by decide, by decide⟩
  have horder := List.reverse_perm touching
  exact ⟨⟨hseparate, horder, (apply_splices touching _ _).1 hseparate horder⟩,
    (apply_splices overlapping overlapping _).2.2⟩

example : apply [.replacement 0 3 ['x'], .replacement 1 1 ['y'], .insertion 3 ['z'],
    .replacement 3 6 ['w']] "abcd".toList = "xzd".toList := by decide

end Canonmark.Splice
