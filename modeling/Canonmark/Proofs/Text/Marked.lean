import Canonmark.Document.Builder
import Mathlib.Data.List.Basic

/-!
# Marked texts

A text in which some characters are marked as inserted stands for two texts: the one with the
marked characters and the one without them. Positions in the first are mapped to positions in the
second by leaving the marked characters out of the count, and this is what an origin does.
-/

namespace Canonmark

/-- Characters, each with whether it was inserted. -/
abbrev Marked := List (Char × Bool)

/-- A text that starts at `start`, without the characters at the positions `dropped`. -/
def Text.without (dropped : List Nat) (start : Nat) : Text → Text
  | [] => []
  | c :: rest =>
      if start ∈ dropped then Text.without dropped (start + 1) rest
      else c :: Text.without dropped (start + 1) rest

namespace Text

theorem without_append (dropped : List Nat) (start : Nat) (first second : Text) :
    without dropped start (first ++ second) =
      without dropped start first ++ without dropped (start + first.length) second := by
  induction first generalizing start with
  | nil => rfl
  | cons c rest ih =>
      have hnext : start + 1 + rest.length = start + (c :: rest).length := by
        rw [List.length_cons]
        omega
      simp only [List.cons_append, without]
      split
      · rw [ih, hnext]
      · rw [ih, hnext, List.cons_append]

theorem without_sublist (dropped : List Nat) (start : Nat) (text : Text) :
    (without dropped start text).Sublist text := by
  induction text generalizing start with
  | nil => exact List.Sublist.slnil
  | cons c rest ih =>
      rw [without]
      split
      · exact (ih _).cons c
      · exact (ih _).cons_cons c

theorem without_eq_self {dropped : List Nat} {start : Nat} {text : Text}
    (h : ∀ k < text.length, start + k ∉ dropped) : without dropped start text = text := by
  induction text generalizing start with
  | nil => rfl
  | cons c rest ih =>
      have hhere : start ∉ dropped := h 0 (Nat.succ_pos _)
      have hlater : ∀ k < rest.length, start + 1 + k ∉ dropped := fun k hlt => by
        have := h (k + 1) (Nat.succ_lt_succ hlt)
        rwa [Nat.add_assoc, Nat.add_comm 1 k]
      rw [without, if_neg hhere, ih hlater]

theorem countP_le_eq (dropped : List Nat) (start : Nat) :
    dropped.countP (start ≤ ·) = dropped.countP (start + 1 ≤ ·) + dropped.count start := by
  induction dropped with
  | nil => rfl
  | cons i others ih =>
      simp only [List.countP_cons, List.count_cons, ih, decide_eq_true_eq, beq_iff_eq]
      split_ifs <;> omega

theorem length_le_without (dropped : List Nat) (start : Nat) (text : Text) :
    text.length ≤ (without dropped start text).length + dropped.countP (start ≤ ·) := by
  induction text generalizing start with
  | nil => exact Nat.zero_le _
  | cons c rest ih =>
      have hlater := ih (start + 1)
      rw [without, List.length_cons, countP_le_eq]
      split
      · next hmem =>
          have := List.count_pos_iff.mpr hmem
          omega
      · rw [List.length_cons]
        omega

end Text

namespace Marked

def text (marked : Marked) : Text := marked.map Prod.fst

def kept (marked : Marked) : Text := (marked.filter (!·.2)).map Prod.fst

def inserted (marked : Marked) : Text := (marked.filter (·.2)).map Prod.fst

def positions (start : Nat) : Marked → List Nat
  | [] => []
  | (_, true) :: rest => start :: positions (start + 1) rest
  | (_, false) :: rest => positions (start + 1) rest

def origin (marked : Marked) : Origin :=
  ⟨marked.text, marked.kept, marked.positions 0⟩

def plain (text : Text) : Marked := text.map (·, false)

@[simp] theorem text_nil : text [] = [] := rfl

@[simp] theorem kept_nil : kept [] = [] := rfl

@[simp] theorem text_cons (mark : Char × Bool) (marked : Marked) :
    text (mark :: marked) = mark.1 :: text marked := rfl

@[simp] theorem kept_cons_true (c : Char) (marked : Marked) :
    kept ((c, true) :: marked) = kept marked := rfl

@[simp] theorem kept_cons_false (c : Char) (marked : Marked) :
    kept ((c, false) :: marked) = c :: kept marked := rfl

@[simp] theorem text_append (first second : Marked) :
    text (first ++ second) = text first ++ text second := by
  simp [text]

@[simp] theorem kept_append (first second : Marked) :
    kept (first ++ second) = kept first ++ kept second := by
  simp [kept]

theorem kept_sublist (marked : Marked) : (kept marked).Sublist (text marked) :=
  List.filter_sublist.map Prod.fst

@[simp] theorem text_plain (source : Text) : text (plain source) = source := by
  simp [text, plain, Function.comp_def]

@[simp] theorem kept_plain (source : Text) : kept (plain source) = source := by
  induction source with
  | nil => rfl
  | cons c rest ih => simpa [plain] using ih

@[simp] theorem plain_append (first second : Text) :
    plain (first ++ second) = plain first ++ plain second := by
  simp [plain]

@[simp] theorem inserted_append (first second : Marked) :
    inserted (first ++ second) = inserted first ++ inserted second := by
  simp [inserted]

@[simp] theorem inserted_cons_true (c : Char) (marked : Marked) :
    inserted ((c, true) :: marked) = c :: inserted marked := rfl

@[simp] theorem inserted_plain (source : Text) : inserted (plain source) = [] := by
  simp [inserted, plain]

@[simp] theorem length_text (marked : Marked) : marked.text.length = marked.length := by
  simp [text]

@[simp] theorem length_plain (source : Text) : (plain source).length = source.length := by
  simp [plain]

/-! ## Positions -/

theorem positions_append (start : Nat) (first second : Marked) :
    positions start (first ++ second) =
      positions start first ++ positions (start + first.length) second := by
  induction first generalizing start with
  | nil => simp [positions]
  | cons mark rest ih =>
      obtain ⟨c, inserted⟩ := mark
      cases inserted <;> simp [positions, ih, Nat.add_comm, Nat.add_left_comm]

@[simp] theorem positions_plain (start : Nat) (source : Text) :
    positions start (plain source) = [] := by
  induction source generalizing start with
  | nil => rfl
  | cons c rest ih => exact ih (start + 1)

theorem mem_positions {start position : Nat} {marked : Marked} :
    position ∈ positions start marked ↔
      ∃ i c, marked[i]? = some (c, true) ∧ position = start + i := by
  induction marked generalizing start with
  | nil => simp [positions]
  | cons mark rest ih =>
      obtain ⟨c, inserted⟩ := mark
      constructor
      · intro h
        cases inserted with
        | true =>
            rcases List.mem_cons.mp h with rfl | hrest
            · exact ⟨0, c, by simp⟩
            · obtain ⟨i, d, hi, rfl⟩ := ih.mp hrest
              exact ⟨i + 1, d, by simpa using hi, by omega⟩
        | false =>
            obtain ⟨i, d, hi, rfl⟩ := ih.mp h
            exact ⟨i + 1, d, by simpa using hi, by omega⟩
      · rintro ⟨i, d, hi, rfl⟩
        cases i with
        | zero =>
            obtain ⟨rfl, rfl⟩ : c = d ∧ inserted = true := by simpa using hi
            simp [positions]
        | succ i =>
            have hrest : start + (i + 1) ∈ positions (start + 1) rest :=
              ih.mpr ⟨i, d, by simpa using hi, by omega⟩
            cases inserted <;> simp [positions, hrest]

theorem map_positions (start : Nat) (marked : Marked) :
    (positions start marked).map (fun position => marked.text[position - start]?) =
      marked.inserted.map some := by
  induction marked generalizing start with
  | nil => rfl
  | cons mark rest ih =>
      obtain ⟨c, inserted⟩ := mark
      have hrest : (positions (start + 1) rest).map
          (fun position => (text ((c, inserted) :: rest))[position - start]?) =
            (Marked.inserted rest).map some := by
        rw [← ih (start + 1)]
        refine List.map_congr_left fun position hposition => ?_
        obtain ⟨i, d, -, rfl⟩ := mem_positions.mp hposition
        rw [show start + 1 + i - start = i + 1 by omega, Nat.add_sub_cancel_left, text_cons,
          List.getElem?_cons_succ]
      cases inserted with
      | true => simpa [positions] using hrest
      | false => exact hrest

theorem length_positions (start : Nat) (marked : Marked) :
    (positions start marked).length = marked.inserted.length := by
  simpa using congrArg List.length (map_positions start marked)

theorem getElem?_text_positions {marked : Marked} {k position : Nat}
    (h : (positions 0 marked)[k]? = some position) :
    marked.text[position]? = marked.inserted[k]? := by
  have hk := congrArg (·[k]?) (map_positions 0 marked)
  simp only [List.getElem?_map, h, Option.map_some, Nat.sub_zero] at hk
  cases hi : marked.inserted[k]? with
  | none => simp [hi] at hk
  | some c => simpa [hi] using hk

theorem positions_bounds {start position : Nat} {marked : Marked}
    (h : position ∈ positions start marked) :
    start ≤ position ∧ position < start + marked.length := by
  obtain ⟨i, c, hi, rfl⟩ := mem_positions.mp h
  have hlt := (List.getElem?_eq_some_iff.mp hi).1
  omega

theorem positions_pairwise (start : Nat) (marked : Marked) :
    (positions start marked).Pairwise (· < ·) := by
  induction marked generalizing start with
  | nil => exact List.Pairwise.nil
  | cons mark rest ih =>
      obtain ⟨c, inserted⟩ := mark
      cases inserted with
      | true =>
          refine List.pairwise_cons.mpr ⟨fun position h => ?_, ih (start + 1)⟩
          have := (positions_bounds h).1
          omega
      | false => exact ih (start + 1)

theorem takeWhile_positions (start n : Nat) (marked : Marked) :
    (positions start marked).takeWhile (· < start + n) = positions start (marked.take n) := by
  induction marked generalizing start n with
  | nil => simp [positions]
  | cons mark rest ih =>
      obtain ⟨c, inserted⟩ := mark
      cases n with
      | zero =>
          rw [List.take_zero, positions]
          cases hall : positions start ((c, inserted) :: rest) with
          | nil => rfl
          | cons first others =>
              have hge := (positions_bounds (hall ▸ List.mem_cons_self)).1
              exact List.takeWhile_cons_of_neg (by simpa using hge)
      | succ n =>
          have hrest := ih (start + 1) n
          rw [show start + 1 + n = start + (n + 1) by omega] at hrest
          cases inserted with
          | true => simp [positions, hrest]
          | false => simpa [positions] using hrest

theorem length_kept (start : Nat) (marked : Marked) :
    marked.kept.length + (positions start marked).length = marked.length := by
  induction marked generalizing start with
  | nil => rfl
  | cons mark rest ih =>
      obtain ⟨c, inserted⟩ := mark
      have := ih (start + 1)
      cases inserted <;> simp [positions] <;> omega

theorem suppliedOffset_origin (marked : Marked) {position : Nat}
    (h : position ≤ marked.length) :
    marked.origin.suppliedOffset position = (kept (marked.take position)).length := by
  have hbefore := takeWhile_positions 0 position marked
  rw [Nat.zero_add] at hbefore
  have hcount := length_kept 0 (marked.take position)
  rw [List.length_take_of_le h] at hcount
  change position - ((positions 0 marked).takeWhile (· < position)).length = _
  rw [hbefore]
  omega

theorem suppliedOffset_origin_mono (marked : Marked) {span : Span} (h : span.stop ≤ marked.length) :
    marked.origin.suppliedOffset span.start ≤ marked.origin.suppliedOffset span.stop ∧
      marked.origin.suppliedOffset span.stop ≤ marked.kept.length := by
  have hle := span.start_le_stop
  have hkept (n : Nat) :
      marked.kept.length = (kept (marked.take n)).length + (kept (marked.drop n)).length := by
    rw [← List.length_append, ← kept_append, List.take_append_drop]
  have hsplit : marked.take span.stop =
      marked.take span.start ++ (marked.drop span.start).take (span.stop - span.start) := by
    rw [← List.take_add, Nat.add_sub_cancel' hle]
  rw [suppliedOffset_origin marked (Nat.le_trans hle h), suppliedOffset_origin marked h]
  refine ⟨?_, by rw [hkept span.stop]; exact Nat.le_add_right _ _⟩
  rw [hsplit, kept_append, List.length_append]
  exact Nat.le_add_right _ _

/-- A slice of the text with the marked characters is mapped to what is kept of it. -/
theorem slice_origin (marked : Marked) {span : Span} (h : span.stop ≤ marked.length) :
    marked.origin.slice span =
      kept ((marked.drop span.start).take (span.stop - span.start)) := by
  have hle := span.start_le_stop
  have hsplit : marked.take span.stop =
      marked.take span.start ++ (marked.drop span.start).take (span.stop - span.start) := by
    rw [← List.take_add, Nat.add_sub_cancel' hle]
  have hkept : marked.kept = kept (marked.take span.stop) ++ kept (marked.drop span.stop) := by
    rw [← kept_append, List.take_append_drop]
  rw [Origin.slice, Span.slice_upTo, suppliedOffset_origin marked (Nat.le_trans hle h),
    suppliedOffset_origin marked h]
  change ((marked.kept).drop _).take _ = _
  rw [hkept, hsplit, kept_append, List.append_assoc, List.drop_left, List.length_append,
    Nat.add_sub_cancel_left, List.take_left]

/-! ## Leaving out -/

theorem without_eq_kept {dropped : List Nat} {start : Nat} {marked : Marked}
    (h : ∀ i mark, marked[i]? = some mark → (start + i ∈ dropped ↔ mark.2 = true)) :
    Text.without dropped start marked.text = marked.kept := by
  induction marked generalizing start with
  | nil => rfl
  | cons mark rest ih =>
      obtain ⟨c, inserted⟩ := mark
      have hfirst : start ∈ dropped ↔ inserted = true := by simpa using h 0 (c, inserted)
      have hrest := @ih (start + 1) fun i mark hi => by
        have := h (i + 1) mark (by simpa using hi)
        rwa [Nat.add_assoc, Nat.add_comm 1 i]
      cases inserted with
      | true => simpa [Text.without, hfirst] using hrest
      | false => simpa [Text.without, hfirst] using hrest

theorem mem_positions_iff {marked : Marked} {i : Nat} {mark : Char × Bool}
    (h : marked[i]? = some mark) : i ∈ positions 0 marked ↔ mark.2 = true := by
  rw [mem_positions]
  constructor
  · rintro ⟨j, c, hj, rfl⟩
    rw [Nat.zero_add, hj] at h
    cases h
    rfl
  · intro hinserted
    exact ⟨i, mark.1, by rw [h, ← hinserted], by simp⟩

/-- Leaving out the inserted characters of a slice leaves what is kept of it. -/
theorem without_slice (marked : Marked) (span : Span) :
    Text.without (positions 0 marked) span.start (span.slice marked.text) =
      kept ((marked.drop span.start).take (span.stop - span.start)) := by
  have hslice : span.slice marked.text =
      text ((marked.drop span.start).take (span.stop - span.start)) := by
    rw [Span.slice, text, text, List.map_take, List.map_drop]
  rw [hslice]
  refine without_eq_kept fun i mark hi => mem_positions_iff ?_
  rw [List.getElem?_take, List.getElem?_drop] at hi
  split at hi
  · exact hi
  · cases hi

end Marked

def Text.byteOffset (text : Text) (position : Nat) : Nat :=
  Text.utf8Size (text.take position)

namespace Text

@[simp] theorem utf8Size_nil : utf8Size [] = 0 := rfl

@[simp] theorem utf8Size_cons (c : Char) (text : Text) :
    utf8Size (c :: text) = c.utf8Size + utf8Size text := by
  simp [utf8Size]

theorem byteOffset_lt {text : Text} {first second : Nat} (hlt : first < second)
    (h : first < text.length) : byteOffset text first < byteOffset text second := by
  induction text generalizing first second with
  | nil => simp at h
  | cons c rest ih =>
      have hc := c.utf8Size_pos
      cases second with
      | zero => omega
      | succ second =>
          cases first with
          | zero => simp [byteOffset]; omega
          | succ first =>
              have := ih (Nat.lt_of_succ_lt_succ hlt) (by simpa using h)
              simpa [byteOffset] using this

end Text

namespace Marked

theorem byteOffset_pairwise (marked : Marked) :
    ((positions 0 marked).map (Text.byteOffset marked.text)).Pairwise (· < ·) := by
  refine List.pairwise_map.mpr ?_
  refine (positions_pairwise 0 marked).imp_of_mem fun hfirst _ hlt => ?_
  have hbound := (positions_bounds hfirst).2
  exact Text.byteOffset_lt hlt (by simpa using hbound)

theorem byteOffset_positions (marked : Marked) (position : Nat) :
    ((positions 0 marked).map (Text.byteOffset marked.text)).takeWhile
        (· < Text.byteOffset marked.text position) =
      ((positions 0 marked).takeWhile (· < position)).map (Text.byteOffset marked.text) := by
  rw [List.takeWhile_map]
  congr 1
  have hall : ∀ p ∈ positions 0 marked, p < marked.text.length := fun p hp => by
    have := (positions_bounds hp).2
    simpa using this
  generalize positions 0 marked = found at hall
  induction found with
  | nil => rfl
  | cons p rest ih =>
      have hp := hall p (by simp)
      have hrest := ih fun q hq => hall q (by simp [hq])
      have hiff : Text.byteOffset marked.text p < Text.byteOffset marked.text position ↔
          p < position := by
        constructor
        · intro hbyte
          by_contra hle
          rcases Nat.lt_or_eq_of_le (Nat.le_of_not_lt hle) with hlt | rfl
          · have := @Text.byteOffset_lt marked.text _ _ hlt (by omega)
            omega
          · omega
        · exact fun hlt => Text.byteOffset_lt hlt hp
      simp only [List.takeWhile_cons, Function.comp_apply, hiff]
      rw [hrest]

theorem utf8Size_text (start : Nat) {marked : Marked}
    (h : ∀ mark ∈ marked, mark.2 = true → mark.1.utf8Size = 1) :
    Text.utf8Size marked.text = Text.utf8Size marked.kept + (positions start marked).length := by
  induction marked generalizing start with
  | nil => rfl
  | cons mark rest ih =>
      obtain ⟨c, inserted⟩ := mark
      have hrest := ih (start + 1) fun mark hmem => h mark (by simp [hmem])
      cases inserted with
      | true =>
          have hc : c.utf8Size = 1 := h (c, true) (by simp) rfl
          simp [positions, hrest, hc]
          omega
      | false => simp [positions, hrest]; omega

/-- Counting in bytes leads to the same place, as long as the inserted characters are single
bytes. -/
theorem byteOffset_suppliedOffset (marked : Marked) {position : Nat}
    (hbytes : ∀ mark ∈ marked, mark.2 = true → mark.1.utf8Size = 1)
    (h : position ≤ marked.length) :
    Text.byteOffset marked.text position -
        (((positions 0 marked).map (Text.byteOffset marked.text)).takeWhile
          (· < Text.byteOffset marked.text position)).length =
      Text.byteOffset marked.kept (marked.origin.suppliedOffset position) := by
  have hbefore := takeWhile_positions 0 position marked
  rw [Nat.zero_add] at hbefore
  have hsize := @utf8Size_text 0 (marked.take position)
    fun mark hmem => hbytes mark (List.mem_of_mem_take hmem)
  have hkept : marked.kept.take (kept (marked.take position)).length =
      kept (marked.take position) := by
    have hsplit := kept_append (marked.take position) (marked.drop position)
    rw [List.take_append_drop] at hsplit
    rw [hsplit, List.take_left]
  rw [byteOffset_positions, List.length_map, hbefore,
    suppliedOffset_origin marked h, Text.byteOffset, Text.byteOffset, hkept]
  have htext : marked.text.take position = text (marked.take position) := by
    simp [text, List.map_take]
  rw [htext, hsize]
  omega

end Marked

end Canonmark
