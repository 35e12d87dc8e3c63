import Canonmark.Proofs.Printed.Starts
import Canonmark.Proofs.Source.EventShape
import Mathlib.Data.List.TakeWhile

/-!
# Printed markers

The markers of items are read as what they were printed for: a bullet, or a number of at most
nine digits and its delimiter.
-/

namespace Canonmark.Ascii

theorem isDigit_of_mem_ofNat {n : Nat} {c : Char} (h : c ∈ ofNat n) : isDigit c = true :=
  Nat.isDigit_of_mem_toDigits (by decide) (by decide) h

theorem decimal_ofNat (n : Nat) : decimal (ofNat n) = n := Nat.ofDigitChars_ten_toDigits

theorem ofNat_ne_nil (n : Nat) : ofNat n ≠ [] := Nat.toDigits_ne_nil

theorem exists_cons_ofNat (n : Nat) : ∃ c rest, ofNat n = c :: rest ∧ isDigit c = true := by
  obtain ⟨c, rest, hshape⟩ := List.exists_cons_of_ne_nil (ofNat_ne_nil n)
  exact ⟨c, rest, hshape, isDigit_of_mem_ofNat (hshape ▸ List.mem_cons_self)⟩

theorem takeWhile_ofNat (n : Nat) {delimiter : Char} (h : isDigit delimiter = false)
    (behind : Text) : (ofNat n ++ delimiter :: behind).takeWhile isDigit = ofNat n := by
  rw [List.takeWhile_append_of_pos fun c hmem => isDigit_of_mem_ofNat hmem, List.takeWhile_cons, h,
    if_neg (by decide), List.append_nil]

theorem drop_ofNat (n : Nat) (delimiter : Char) (behind : Text) :
    (ofNat n ++ delimiter :: behind).drop ((ofNat n).length + 1) = behind := by
  rw [← List.drop_drop, List.drop_left]
  rfl

theorem length_ofNat_le {n : Nat} (h : n < 1000000000) : (ofNat n).length ≤ 9 :=
  (Nat.length_toDigits_le_iff (by decide) (by decide)).mpr h

end Canonmark.Ascii

namespace Canonmark.Printed

open Source

def itemNumber (kind : ListKind) (index : Nat) : Nat :=
  match kind with
  | .bullet _ => 0
  | .ordered start _ => start + index

inductive Marks : ListKind → Nat → Text → Prop
  | bullet {c : Char} : isBullet c = true → Marks (.bullet c) 0 [c]
  | ordered (start : Nat) {number : Nat} {delimiter : Char} :
      delimiter = '.' ∨ delimiter = ')' → number < 1000000000 →
        Marks (.ordered start delimiter) number (Ascii.ofNat number ++ [delimiter])

theorem marks_itemMarker {count index : Nat} {kind : ListKind} (h : settledKind count kind = true)
    (hless : index < count) :
    Marks kind (itemNumber kind index) (Printer.itemMarker kind index) := by
  cases kind with
  | bullet c => exact .bullet h
  | ordered start delimiter =>
      simp only [settledKind, Bool.and_eq_true, Bool.or_eq_true, decide_eq_true_eq] at h
      exact .ordered start h.1 (show start + index < 1000000000 by omega)

def isMarkerChar (c : Char) : Bool := Ascii.isDigit c || isBullet c || c = '.' || c = ')'

theorem isMarkerChar_bounds {c : Char} (h : isMarkerChar c = true) :
    32 < c.toNat ∧ c.toNat < 127 := by
  simp only [isMarkerChar, Ascii.isDigit, isBullet, Bool.or_eq_true, Bool.and_eq_true,
    decide_eq_true_eq] at h
  rcases h with ((⟨hlow, hhigh⟩ | (rfl | rfl) | rfl) | rfl) | rfl
  · have hlow : 48 ≤ c.toNat := hlow
    have hhigh : c.toNat ≤ 57 := hhigh
    omega
  · decide
  · decide
  · decide
  · decide
  · decide

theorem isSpace_of_isMarkerChar {c : Char} (h : isMarkerChar c = true) :
    Ascii.isSpace c = false := by
  have hlow := (isMarkerChar_bounds h).1
  by_contra hspace
  simp only [Bool.not_eq_false, Ascii.isSpace, Ascii.isBlank, Bool.or_eq_true,
    decide_eq_true_eq] at hspace
  rcases hspace with ((((rfl | rfl) | rfl) | rfl) | rfl) | rfl
  all_goals exact absurd hlow (by decide)

structure IsMarker (marker : Text) : Prop where
  some : marker ≠ []
  char : ∀ c ∈ marker, isMarkerChar c = true

namespace IsMarker

variable {marker : Text}

theorem bullet {c : Char} (h : isBullet c = true) : IsMarker [c] where
  some := List.cons_ne_nil _ _
  char d hmem := by
    obtain rfl := List.mem_singleton.mp hmem
    simp [isMarkerChar, h]

theorem ordered (number : Nat) {delimiter : Char} (h : delimiter = '.' ∨ delimiter = ')') :
    IsMarker (Ascii.ofNat number ++ [delimiter]) where
  some := by simp
  char c hmem := by
    rcases List.mem_append.mp hmem with hdigit | hlast
    · simp [isMarkerChar, Ascii.isDigit_of_mem_ofNat hdigit]
    · obtain rfl := List.mem_singleton.mp hlast
      rcases h with rfl | rfl <;> rfl

theorem exists_cons (h : IsMarker marker) :
    ∃ c rest, marker = c :: rest ∧ isMarkerChar c = true := by
  obtain ⟨c, rest, rfl⟩ := List.exists_cons_of_ne_nil h.some
  exact ⟨c, rest, rfl, h.char c List.mem_cons_self⟩

theorem visible (h : IsMarker marker) (behind : Text) : Visible (marker ++ behind) := by
  obtain ⟨c, rest, rfl, hchar⟩ := h.exists_cons
  exact ⟨c, rest ++ behind, rfl, isSpace_of_isMarkerChar hchar⟩

theorem oneLine (h : IsMarker marker) : OneLine marker := by
  refine ⟨fun hmem => ?_, fun hmem => ?_⟩
  · exact absurd (isMarkerChar_bounds (h.char _ hmem)).1 (by decide)
  · exact absurd (isMarkerChar_bounds (h.char _ hmem)).1 (by decide)

theorem utf8Size (h : IsMarker marker) : Text.utf8Size marker = marker.length := by
  have hascii (c : Char) (hmem : c ∈ marker) : c.utf8Size = 1 :=
    Char.utf8Size_eq_one_iff.mpr
      (show c.toNat ≤ 127 from Nat.le_of_lt (isMarkerChar_bounds (h.char c hmem)).2)
  clear h
  induction marker with
  | nil => rfl
  | cons c rest ih =>
      have htail := ih fun d hmem => hascii d (List.mem_cons_of_mem c hmem)
      have hhead := hascii c List.mem_cons_self
      simp only [Text.utf8Size, List.foldr_cons] at htail ⊢
      rw [htail, hhead, List.length_cons, Nat.add_comm]

theorem isBlank (h : IsMarker marker) (behind : Text) :
    Unicode.isBlank (marker ++ behind) = false := by
  obtain ⟨c, rest, rfl, hchar⟩ := h.exists_cons
  obtain ⟨hlow, hhigh⟩ := isMarkerChar_bounds hchar
  have hnone : Unicode.isWhitespace c = false := by
    simp [Unicode.isWhitespace]
    omega
  simp [Unicode.isBlank, hnone]

end IsMarker

variable {kind : ListKind} {number : Nat} {marker : Text}

theorem Marks.isMarker (h : Marks kind number marker) : IsMarker marker := by
  cases h with
  | bullet hbullet => exact .bullet hbullet
  | ordered start hdelimiter hsmall => exact .ordered number hdelimiter

theorem itemNumber?_ofNat {number : Nat} {delimiter : Char}
    (hmarks : delimiter = '.' ∨ delimiter = ')') (hsmall : number < 1000000000) (behind : Text) :
    itemNumber? (Ascii.ofNat number ++ delimiter :: behind)
      = some ((Ascii.ofNat number).length + 1, delimiter, number) := by
  have hdigit : Ascii.isDigit delimiter = false := by
    rcases hmarks with rfl | rfl <;> rfl
  have hdigits := Ascii.takeWhile_ofNat number hdigit behind
  have hshort := Ascii.length_ofNat_le hsmall
  have hsome := List.length_pos_iff.mpr (Ascii.ofNat_ne_nil number)
  simp only [itemNumber?, hdigits, List.drop_left, Ascii.decimal_ofNat]
  rw [if_pos]
  simp only [Bool.and_eq_true, Bool.or_eq_true, decide_eq_true_eq]
  exact ⟨⟨hsome, hshort⟩, hmarks⟩

theorem blankLine?_space {line : Text} (hvisible : Visible line) (behind : Text) :
    blankLine? (' ' :: (line ++ behind)) = none := by
  have hblank := hvisible.blankLine? behind
  simp only [blankLine?] at hblank ⊢
  rw [Option.map_eq_none_iff] at hblank ⊢
  exact hblank

theorem isEmptyItem_visible {line : Text} (hvisible : Visible line) (behind : Text) :
    isEmptyItem (' ' :: (line ++ behind)) = false := by
  rw [isEmptyItem, blankLine?_space hvisible]

theorem isBullet_of_isDigit {c : Char} (h : Ascii.isDigit c = true) :
    isBullet c = false ∧ c ≠ '.' ∧ c ≠ ')' := by
  refine ⟨?_, ?_, ?_⟩
  · rw [← Bool.not_eq_true]
    simp only [isBullet, Bool.or_eq_true, decide_eq_true_eq]
    rintro ((rfl | rfl) | rfl)
    all_goals cases h
  · rintro rfl
    cases h
  · rintro rfl
    cases h

theorem Marks.itemStart? (h : Marks kind number marker) {line : Text} (hvisible : Visible line)
    (behind : Text) :
    Source.itemStart? (marker ++ ' ' :: (line ++ behind))
      = some (listMarker kind, number, false) := by
  have hcontent : startsContent (' ' :: (line ++ behind)) = true := rfl
  have hfilled := isEmptyItem_visible hvisible behind
  cases h with
  | @bullet c hbullet =>
      rw [List.singleton_append, itemStart?_cons, hbullet, Bool.true_or, Bool.true_or, if_pos rfl,
        hcontent, if_pos rfl, hfilled]
      rfl
  | @ordered start number delimiter hmarks hsmall =>
      have hread := itemNumber?_ofNat hmarks hsmall (' ' :: (line ++ behind))
      have hdrop := Ascii.drop_ofNat number delimiter (' ' :: (line ++ behind))
      obtain ⟨c, rest, hshape, hdigit⟩ := Ascii.exists_cons_ofNat number
      obtain ⟨hbullet, hdot, hbracket⟩ := isBullet_of_isDigit hdigit
      rw [List.append_assoc, List.singleton_append]
      rw [hshape, List.cons_append] at hread hdrop ⊢
      rw [itemStart?_cons, if_neg (by simp [hbullet, hdot, hbracket]), hread, Option.bind_some,
        hdrop, hcontent, if_pos rfl, hfilled]
      rfl

theorem finish_visible {text line behind : Text} {width : Nat} (hvisible : Visible line)
    (hdrop : text.drop width = ' ' :: (line ++ behind)) (marker : Char) (number taken : Nat) :
    LineHead.itemMarker?.finish 0 (headAt taken text) marker number width
      = some (⟨marker, number, width + 1⟩, headAt (taken + width + 1) (line ++ behind)) := by
  have hadvanced : (headAt taken text).advance width = headAt (taken + width) (text.drop width) :=
    rfl
  have hspace := takeExactly_spaces (taken + width) 1 (line ++ behind)
  rw [List.replicate_one, List.singleton_append] at hspace
  rw [LineHead.itemMarker?.finish, hadvanced, hdrop]
  simp only [hspace, Bool.true_or, Bool.not_true, Bool.false_eq_true, if_false,
    takeUpTo_headAt (hvisible.front behind)]
  rw [if_neg]
  · simp
  · simp [headAt, hvisible.isBlankLine]

theorem Marks.itemMarker? (h : Marks kind number marker) {line : Text} (hvisible : Visible line)
    {behind : Text} (hrule : rule? (marker ++ ' ' :: (line ++ behind)) = none) (taken : Nat) :
    (headAt taken (marker ++ ' ' :: (line ++ behind))).itemMarker? 0
      = some (⟨listMarker kind, number, marker.length + 1⟩,
          headAt (taken + marker.length + 1) (line ++ behind)) := by
  cases h with
  | @bullet c hbullet =>
      rw [List.singleton_append] at hrule ⊢
      rw [itemMarker?_cons, if_pos hbullet, hrule, if_neg (by decide)]
      exact finish_visible hvisible rfl c 0 taken
  | @ordered start number delimiter hmarks hsmall =>
      have hread := itemNumber?_ofNat hmarks hsmall (' ' :: (line ++ behind))
      have hdrop := Ascii.drop_ofNat number delimiter (' ' :: (line ++ behind))
      have hfound := finish_visible hvisible hdrop delimiter number taken
      obtain ⟨c, rest, hshape, hdigit⟩ := Ascii.exists_cons_ofNat number
      rw [List.append_assoc, List.singleton_append, List.length_append, List.length_singleton]
      rw [hshape, List.cons_append] at hread hfound ⊢
      rw [itemMarker?_cons, if_neg (by simp [isBullet_of_isDigit hdigit]), hread, Option.bind_some]
      exact hfound

/-- The builder finds the kind of a list where its first item starts. -/
theorem Marks.readItemMarker (h : Marks kind number marker) (behind : Text)
    (hfirst : number = itemNumber kind 0) :
    (readItemMarker (BlockTree.listNumber (listMarker kind) number) (marker ++ ' ' :: behind)).1
      = kind := by
  cases h with
  | @bullet c hbullet =>
      have hfront : c ≠ ' ' := by
        rintro rfl
        cases hbullet
      simp [BlockTree.listNumber, listMarker, hbullet, Canonmark.readItemMarker, hfront]
  | @ordered start number delimiter hmarks hsmall =>
      obtain rfl : number = start := hfirst
      have hother : isBullet delimiter = false := by
        rcases hmarks with rfl | rfl <;> rfl
      have hdigit : Ascii.isDigit delimiter = false := by
        rcases hmarks with rfl | rfl <;> rfl
      have hdigits := Ascii.takeWhile_ofNat number hdigit (' ' :: behind)
      have hfront : (Ascii.ofNat number ++ delimiter :: ' ' :: behind).dropWhile (· = ' ')
          = Ascii.ofNat number ++ delimiter :: ' ' :: behind := by
        obtain ⟨c, rest, hshape, hdigit⟩ := Ascii.exists_cons_ofNat number
        have hvisible : c ≠ ' ' := by
          rintro rfl
          cases hdigit
        simp [hshape, hvisible]
      rw [List.append_assoc, List.singleton_append]
      simp only [BlockTree.listNumber, listMarker, hother, Canonmark.readItemMarker, hfront,
        hdigits, List.drop_left]
      rcases hmarks with rfl | rfl <;> rfl

theorem Marks.underline? (h : Marks kind number marker) {line : Text} (hvisible : Visible line)
    (behind : Text) : Source.underline? (marker ++ ' ' :: (line ++ behind)) = none := by
  cases h with
  | @bullet c hbullet =>
      rw [List.singleton_append]
      simp only [Source.underline?]
      split
      · next hmark =>
          have hother : c ≠ ' ' := by
            rintro rfl
            cases hbullet
          have hcount : countWhile (fun d => d = c) (c :: ' ' :: (line ++ behind)) = 1 := by
            simp [countWhile, Ne.symm hother]
          rw [hcount, List.drop_succ_cons, List.drop_zero, blankLine?_space hvisible,
            Option.map_none]
      · rfl
  | @ordered start number delimiter hmarks hsmall =>
      obtain ⟨c, rest, hshape, hdigit⟩ := Ascii.exists_cons_ofNat number
      have hother : c ≠ '=' ∧ c ≠ '-' := by
        refine ⟨?_, ?_⟩
        · rintro rfl
          cases hdigit
        · rintro rfl
          cases hdigit
      rw [hshape, List.cons_append, List.cons_append]
      simp only [Source.underline?]
      rw [if_neg (by simp [hother])]

end Canonmark.Printed
