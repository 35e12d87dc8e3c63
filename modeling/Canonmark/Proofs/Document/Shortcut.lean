import Canonmark.Document.Shortcut
import Canonmark.Proofs.Text.Basic
import Mathlib.Data.List.Induction

/-!
# References in text

What makes the text behind an at sign an identifier, and how a text is split at the references
in it: character by character, or past a whole reference.
-/

namespace Canonmark.XrefShortcut

variable {before : Option Char} {identifier behind rest : Text} {c : Char}

def isWordChar (c : Char) : Bool := !Unicode.isWhitespace c

def EndsWord (behind : Text) : Prop := ∀ c ∈ behind.takeWhile isWordChar, isTrailing c = true

/-- What stands behind an at sign when `identifier` is referred to. -/
structure Identifies (before : Option Char) (identifier behind : Text) : Prop where
  free : before.any blocks = false
  letter : identifier.head?.any Ascii.isLetter = true
  word : ∀ c ∈ identifier, isWordChar c = true
  last : ∀ c ∈ identifier.getLast?, isTrailing c = false
  ends : EndsWord behind

theorem isLetter_bounds (h : Ascii.isLetter c = true) :
    65 ≤ c.toNat ∧ c.toNat ≤ 90 ∨ 97 ≤ c.toNat ∧ c.toNat ≤ 122 := by
  simp only [Ascii.isLetter, Bool.or_eq_true, Bool.and_eq_true, decide_eq_true_eq] at h
  exact h.symm

theorem isWordChar_of_isLetter (h : Ascii.isLetter c = true) : isWordChar c = true := by
  have hbounds := isLetter_bounds h
  simp only [isWordChar, Unicode.isWhitespace, Bool.not_eq_true', Bool.or_eq_false_iff,
    Bool.and_eq_false_iff, decide_eq_false_iff_not]
  omega

theorem isTrailing_spec (h : isTrailing c = true) : Ascii.isLetter c = false ∧ c ≠ '@' := by
  have hall : ".,;:!?'\")]\x7d>".toList.all (fun c => !Ascii.isLetter c && c != '@') = true := by
    decide
  have hapart := List.all_eq_true.mp hall c (List.contains_iff_mem.mp h)
  simpa using hapart

theorem endsWord_append {word behind : Text} (h : ∀ c ∈ word, isWordChar c = true) :
    EndsWord (word ++ behind) ↔ (∀ c ∈ word, isTrailing c = true) ∧ EndsWord behind := by
  rw [EndsWord, List.takeWhile_append_of_pos h, List.forall_mem_append]
  rfl

theorem endsWord_cons {c : Char} {rest : Text} (h : isWordChar c = true) :
    EndsWord (c :: rest) ↔ isTrailing c = true ∧ EndsWord rest := by
  rw [EndsWord, List.takeWhile_cons_of_pos h, List.forall_mem_cons]
  rfl

theorem EndsWord.head? (h : EndsWord behind) : behind.head? ≠ some '@' := by
  cases behind with
  | nil => simp
  | cons c rest =>
      intro hsame
      obtain rfl : c = '@' := Option.some_inj.mp hsame
      exact (isTrailing_spec (h '@' List.mem_cons_self)).2 rfl

theorem dropEndWhile_word {tail : Text} (hlast : ∀ c ∈ identifier.getLast?, isTrailing c = false)
    (htrailing : ∀ c ∈ tail, isTrailing c = true) :
    Text.dropEndWhile isTrailing (identifier ++ tail) = identifier := by
  rw [Text.dropEndWhile_append identifier htrailing, Text.dropEndWhile_of_last hlast]

theorem Identifies.ne_nil (h : Identifies before identifier behind) : identifier ≠ [] := by
  rintro rfl
  exact Bool.false_ne_true h.letter

theorem Identifies.identifier? (h : Identifies before identifier behind) :
    identifier? before (identifier ++ behind) = some identifier := by
  have hletter : (identifier ++ behind).head?.any Ascii.isLetter = true := by
    rw [List.head?_append_of_ne_nil _ h.ne_nil]
    exact h.letter
  have hrun : (identifier ++ behind).takeWhile isWordChar =
      identifier ++ behind.takeWhile isWordChar :=
    List.takeWhile_append_of_pos h.word
  rw [XrefShortcut.identifier?, if_neg (by rw [h.free, hletter]; decide)]
  exact congrArg some ((congrArg _ hrun).trans (dropEndWhile_word h.last h.ends))

theorem exists_word (text : Text) :
    ∃ word behind, Text.dropEndWhile isTrailing (text.takeWhile isWordChar) = word ∧
      text = word ++ behind ∧ (∀ c ∈ word, isWordChar c = true) ∧
      (∀ c ∈ word.getLast?, isTrailing c = false) ∧ EndsWord behind := by
  have hcut := List.takeWhile_append_dropWhile (p := isWordChar) (l := text)
  have hinRun : ∀ c ∈ text.takeWhile isWordChar, isWordChar c = true :=
    fun c hmem => List.mem_takeWhile_imp hmem
  have hedge := List.head?_dropWhile_not isWordChar text
  generalize text.takeWhile isWordChar = run at *
  generalize text.dropWhile isWordChar = behind at *
  have hwhole : run.rdropWhile isTrailing ++ run.rtakeWhile isTrailing = run :=
    List.rdropWhile_append_rtakeWhile
  have htrailing : ∀ c ∈ run.rtakeWhile isTrailing, isTrailing c = true :=
    fun c hmem => List.mem_rtakeWhile_imp hmem
  have hinWord : ∀ c ∈ run.rdropWhile isTrailing ++ run.rtakeWhile isTrailing,
      isWordChar c = true := hwhole.symm ▸ hinRun
  have hblank : EndsWord behind := by
    cases behind with
    | nil => exact fun c hmem => absurd hmem List.not_mem_nil
    | cons c behind =>
        intro d hmem
        rw [List.takeWhile_cons, if_neg (by simpa using hedge)] at hmem
        cases hmem
  refine ⟨run.rdropWhile isTrailing, run.rtakeWhile isTrailing ++ behind, rfl, ?_, ?_, ?_, ?_⟩
  · rw [← List.append_assoc, hwhole, hcut]
  · exact fun c hmem => hinWord c (List.mem_append_left _ hmem)
  · intro c hmem
    obtain ⟨hfilled, rfl⟩ := List.mem_getLast?_eq_getLast hmem
    exact eq_false_of_ne_true (List.rdropWhile_last_not isTrailing run hfilled)
  · exact (endsWord_append fun c hmem => hinWord c (List.mem_append_right _ hmem)).mpr
      ⟨htrailing, hblank⟩

theorem exists_identifies (h : identifier? before rest = some identifier) :
    ∃ behind, rest = identifier ++ behind ∧ Identifies before identifier behind := by
  rw [identifier?] at h
  split at h
  · cases h
  · next hstarts =>
      simp only [Bool.or_eq_true, Bool.not_eq_true', not_or, Bool.not_eq_true,
        Bool.not_eq_false] at hstarts
      obtain ⟨hfree, hletter⟩ := hstarts
      obtain ⟨word, behind, hcut, rfl, hinWord, hlast, hends⟩ := exists_word rest
      obtain rfl : word = identifier := hcut.symm.trans (Option.some_inj.mp h)
      have hfilled : word ≠ [] := by
        rintro rfl
        cases behind with
        | nil => cases hletter
        | cons c behind =>
            have htrailing := ((endsWord_cons (isWordChar_of_isLetter hletter)).mp hends).1
            exact Bool.false_ne_true ((isTrailing_spec htrailing).1.symm.trans hletter)
      rw [List.head?_append_of_ne_nil _ hfilled] at hletter
      exact ⟨behind, rfl, hfree, hletter, hinWord, hlast, hends⟩

theorem identifier?_eq_none_iff {text : Text} :
    identifier? before text = none ↔
      before.any blocks = true ∨ text.head?.any Ascii.isLetter = false := by
  rw [identifier?, ← Bool.not_eq_true', ← Bool.or_eq_true]
  split <;> simp_all

theorem splitFrom_char {kept : Text} (h : c = '@' → identifier? before rest = none) :
    splitFrom before kept 0 (c :: rest) = splitFrom (some c) (c :: kept) 0 rest := by
  rw [splitFrom]
  split
  · next hreference =>
      split at hreference
      · next hat => rw [h hat] at hreference; cases hreference
      · cases hreference
  · rfl

theorem splitFrom_append (before : Option Char) (kept identifier behind : Text) :
    splitFrom before kept identifier.length (identifier ++ behind) =
      splitFrom (identifier.getLast?.or before) kept 0 behind := by
  induction identifier generalizing before with
  | nil => rfl
  | cons c identifier ih =>
      rw [List.length_cons, List.cons_append, splitFrom, ih, List.getLast?_cons]
      cases identifier.getLast? <;> rfl

theorem splitFrom_reference (h : Identifies before identifier behind) (kept : Text) :
    splitFrom before kept 0 ('@' :: (identifier ++ behind)) =
      textLeaf kept ++ .xref identifier false :: splitFrom identifier.getLast? [] 0 behind := by
  obtain ⟨last, heq⟩ := Option.isSome_iff_exists.mp (List.getLast?_isSome.mpr h.ne_nil)
  simp only [splitFrom, if_pos, h.identifier?, splitFrom_append, heq, Option.some_or]

/-- A text is read character by character, and past references as a whole. -/
theorem scan_induction {motive : Option Char → Text → Prop}
    (nil : ∀ before, motive before [])
    (char : ∀ before c rest, (c = '@' → identifier? before rest = none) →
      motive (some c) rest → motive before (c :: rest))
    (reference : ∀ before identifier behind, Identifies before identifier behind →
      motive identifier.getLast? behind → motive before ('@' :: (identifier ++ behind)))
    (before : Option Char) (text : Text) : motive before text := by
  induction hsize : text.length using Nat.strong_induction_on generalizing before text with
  | h size ih =>
      subst hsize
      cases text with
      | nil => exact nil before
      | cons c rest =>
          by_cases hplain : c = '@' → identifier? before rest = none
          · exact char before c rest hplain (ih rest.length (Nat.lt_succ_self _) (some c) rest rfl)
          · rw [Classical.not_imp] at hplain
            obtain ⟨rfl, hfound⟩ := hplain
            obtain ⟨identifier, hfound⟩ := Option.ne_none_iff_exists'.mp hfound
            obtain ⟨behind, rfl, hidentifies⟩ := exists_identifies hfound
            refine reference before identifier behind hidentifies (ih _ ?_ _ behind rfl)
            rw [List.length_cons, List.length_append]
            omega

theorem flatMap_splitFrom {α : Type} (f : Leaf → List α) (hnil : f (.text []) = [])
    (happend : ∀ first second, f (.text (first ++ second)) = f (.text first) ++ f (.text second))
    (before : Option Char) (kept text : Text) :
    (splitFrom before kept 0 text).flatMap f =
      f (.text kept.reverse) ++ (splitFrom before [] 0 text).flatMap f := by
  have hfront (kept : Text) : (textLeaf kept).flatMap f = f (.text kept.reverse) := by
    cases kept with
    | nil => exact hnil.symm
    | cons c kept => exact List.append_nil _
  induction before, text using scan_induction generalizing kept with
  | nil before =>
      rw [splitFrom, splitFrom, hfront, hfront, List.reverse_nil, hnil, List.append_nil]
  | char before c rest hplain ih =>
      rw [splitFrom_char hplain, splitFrom_char hplain, ih (c :: kept), ih [c], List.reverse_cons,
        happend, List.append_assoc]
      rfl
  | reference before identifier behind h ih =>
      rw [splitFrom_reference h, splitFrom_reference h, List.flatMap_append, hfront,
        List.flatMap_append, hfront, List.reverse_nil, hnil, List.nil_append]

theorem splitFrom_free (before : Option Char) (kept : Text) {text : Text} (hfree : '@' ∉ text) :
    splitFrom before kept 0 text = textLeaf (text.reverse ++ kept) := by
  induction text generalizing before kept with
  | nil => rfl
  | cons c rest ih =>
      simp only [List.mem_cons, not_or] at hfree
      rw [splitFrom_char fun hat => absurd hat.symm hfree.1, ih _ _ hfree.2, List.reverse_cons,
        List.append_assoc, List.singleton_append]

theorem flatMap_split {α : Type} (f : Leaf → List α) (hnil : f (.text []) = []) (text : Text) :
    (split text).flatMap f = (splitFrom none [] 0 text).flatMap f := by
  rw [split]
  split
  · rfl
  · next hfree =>
      rw [splitFrom_free none [] (by simpa using hfree), List.append_nil]
      cases text with
      | nil => exact congrArg (· ++ []) hnil
      | cons c rest => simp [textLeaf]

end Canonmark.XrefShortcut
