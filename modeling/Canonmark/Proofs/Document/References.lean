import Canonmark.Document.Printer
import Canonmark.Proofs.Document.Shortcut

/-!
# Where references stand

In a text that is split there is a reference at each at sign that may start one and stands in no
earlier reference, and nowhere else.
-/

namespace Canonmark.XrefShortcut

variable {before : Option Char} {text part identifier behind rest : Text} {c : Char}
  {position further : Nat} {leaves : List Leaf}

def Allows (before : Option Char) : Prop :=
  ∀ c ∈ before, Unicode.isAlphanumeric c = false ∧ c ∉ ['@', '\\', '_', '\x60']

/-- An at sign that may start a reference, in a text that follows the character `before`. -/
structure Opens (before : Option Char) (text : Text) (position : Nat) : Prop where
  sign : text[position]? = some '@'
  free : Allows ((text.take position).getLast?.or before)
  letter : ∃ c ∈ text[position + 1]?, Ascii.isLetter c = true

/-- What stands behind a position up to the next white space, without its trailing characters. -/
def wordBehind (text : Text) (position : Nat) : Text :=
  Text.dropEndWhile isTrailing ((text.drop (position + 1)).takeWhile isWordChar)

theorem any_blocks_eq_false : before.any blocks = false ↔ Allows before := by
  cases before with
  | none => simp [Allows]
  | some c => simp [Allows, blocks, and_assoc]

theorem opens_zero :
    Opens before (c :: rest) 0 ↔ c = '@' ∧ identifier? before rest ≠ none := by
  have hletter : (∃ d ∈ rest[0]?, Ascii.isLetter d = true) ↔
      rest.head?.any Ascii.isLetter = true := by
    cases rest <;> simp
  rw [Ne, identifier?_eq_none_iff, not_or, Bool.not_eq_true, Bool.not_eq_false,
    any_blocks_eq_false, ← hletter]
  constructor
  · rintro ⟨hsign, hfree, hletter⟩
    exact ⟨by simpa using hsign, hfree, hletter⟩
  · rintro ⟨rfl, hfree, hletter⟩
    exact ⟨rfl, hfree, hletter⟩

theorem opens_append (first : Text) :
    Opens before (first ++ rest) (first.length + position) ↔
      Opens (first.getLast?.or before) rest position := by
  have hinFront : ((first ++ rest).take (first.length + position)).getLast?.or before =
      (rest.take position).getLast?.or (first.getLast?.or before) := by
    rw [List.take_length_add_append, List.getLast?_append, Option.or_assoc]
  have hbehind (place : Nat) : (first ++ rest)[first.length + place]? = rest[place]? := by
    rw [List.getElem?_append_right (Nat.le_add_right _ _), Nat.add_sub_cancel_left]
  constructor
  · rintro ⟨hsign, hfree, hletter⟩
    exact ⟨(hbehind _).symm.trans hsign, hinFront ▸ hfree, hbehind (position + 1) ▸ hletter⟩
  · rintro ⟨hsign, hfree, hletter⟩
    exact ⟨(hbehind _).trans hsign, hinFront.symm ▸ hfree, (hbehind (position + 1)).symm ▸ hletter⟩

theorem opens_succ :
    Opens before (c :: rest) (position + 1) ↔ Opens (some c) rest position := by
  rw [Nat.add_comm]
  exact opens_append [c]

theorem opens_front (h : Allows before) :
    Opens before text position ↔ Opens none text position := by
  have hsame : Allows ((text.take position).getLast?.or before) ↔
      Allows ((text.take position).getLast?.or none) := by
    cases (text.take position).getLast? with
    | none => exact iff_of_true h nofun
    | some c => rfl
  exact ⟨fun ⟨hsign, hfree, hletter⟩ => ⟨hsign, hsame.mp hfree, hletter⟩,
    fun ⟨hsign, hfree, hletter⟩ => ⟨hsign, hsame.mpr hfree, hletter⟩⟩

theorem opens_behind (h : Ascii.isLetter c = false) (hinside : position < text.length) :
    Opens before (text ++ c :: behind) position ↔ Opens before text position := by
  have hsign : (text ++ c :: behind)[position]? = text[position]? :=
    List.getElem?_append_left hinside
  have hinFront : (text ++ c :: behind).take position = text.take position :=
    List.take_append_of_le_length (Nat.le_of_lt hinside)
  have hletter : (∃ d ∈ (text ++ c :: behind)[position + 1]?, Ascii.isLetter d = true) ↔
      ∃ d ∈ text[position + 1]?, Ascii.isLetter d = true := by
    rcases Nat.lt_or_eq_of_le (Nat.succ_le_of_lt hinside) with hless | hlast
    · rw [List.getElem?_append_left hless]
    · rw [show position + 1 = text.length from hlast]
      simp [h]
  constructor
  · rintro ⟨hopens, hfree, hfurther⟩
    exact ⟨hsign ▸ hopens, hinFront ▸ hfree, hletter.mp hfurther⟩
  · rintro ⟨hopens, hfree, hfurther⟩
    exact ⟨hsign ▸ hopens, hinFront ▸ hfree, hletter.mpr hfurther⟩

theorem Opens.length_le (h : Opens before (text ++ rest) position) (hfree : '@' ∉ text) :
    text.length ≤ position := by
  by_contra hinside
  have hsign := h.sign
  rw [List.getElem?_append_left (Nat.lt_of_not_le hinside)] at hsign
  exact hfree (List.mem_of_getElem? hsign)

theorem Opens.lt_length (h : Opens before (text ++ rest) position) (hfree : '@' ∉ rest) :
    position < text.length := by
  by_contra hbehind
  have hsign := h.sign
  rw [List.getElem?_append_right (Nat.le_of_not_lt hbehind)] at hsign
  exact hfree (List.mem_of_getElem? hsign)

theorem wordBehind_append (first : Text) :
    wordBehind (first ++ rest) (first.length + position) = wordBehind rest position := by
  rw [wordBehind, Nat.add_assoc, List.drop_length_add_append]
  rfl

/-- A reference among leaves, at its place in the text that they print. -/
def RefersAt (leaves : List Leaf) (position : Nat) (identifier : Text) : Prop :=
  ∃ front behind, leaves = front ++ .xref identifier false :: behind ∧
    (front.flatMap Printer.leaf).length = position

theorem refersAt_nil : ¬RefersAt [] position identifier := by
  rintro ⟨front, behind, hnone, -⟩
  cases front <;> cases hnone

theorem refersAt_text :
    RefersAt (.text part :: leaves) position identifier ↔
      ∃ further, position = part.length + further ∧ RefersAt leaves further identifier := by
  constructor
  · rintro ⟨front, behind, hsame, rfl⟩
    cases front with
    | nil => cases hsame
    | cons leaf front =>
        obtain ⟨rfl, rfl⟩ := List.cons_eq_cons.mp hsame
        refine ⟨_, ?_, front, behind, rfl, rfl⟩
        rw [List.flatMap_cons, List.length_append]
        rfl
  · rintro ⟨_, rfl, front, behind, rfl, rfl⟩
    refine ⟨.text part :: front, behind, rfl, ?_⟩
    rw [List.flatMap_cons, List.length_append]
    rfl

theorem not_refersAt_single : ¬RefersAt [.text part] position identifier := by
  intro hrefers
  obtain ⟨_, -, hnothing⟩ := refersAt_text.mp hrefers
  exact refersAt_nil hnothing

theorem refersAt_xref {word : Text} :
    RefersAt (.xref word false :: leaves) position identifier ↔
      position = 0 ∧ identifier = word ∨
        ∃ further, position = word.length + 1 + further ∧ RefersAt leaves further identifier := by
  constructor
  · rintro ⟨front, behind, hsame, rfl⟩
    cases front with
    | nil =>
        cases hsame
        exact .inl ⟨rfl, rfl⟩
    | cons leaf front =>
        obtain ⟨rfl, rfl⟩ := List.cons_eq_cons.mp hsame
        refine .inr ⟨_, ?_, front, behind, rfl, rfl⟩
        rw [List.flatMap_cons, List.length_append]
        rfl
  · rintro (⟨rfl, rfl⟩ | ⟨_, rfl, front, behind, rfl, rfl⟩)
    · exact ⟨[], leaves, rfl, rfl⟩
    · refine ⟨.xref word false :: front, behind, rfl, ?_⟩
      rw [List.flatMap_cons, List.length_append]
      rfl

theorem refersAt_textLeaf {kept : Text} :
    RefersAt (textLeaf kept ++ leaves) position identifier ↔
      ∃ further, position = kept.length + further ∧ RefersAt leaves further identifier := by
  cases kept with
  | nil => simp [textLeaf]
  | cons c kept =>
      have hfilled : textLeaf (c :: kept) ++ leaves = .text (c :: kept).reverse :: leaves := rfl
      rw [hfilled, refersAt_text, List.length_reverse]

theorem refersAt_splitFrom (before : Option Char) (kept text : Text) :
    RefersAt (splitFrom before kept 0 text) position identifier ↔
      ∃ further, position = kept.length + further ∧
        RefersAt (splitFrom before [] 0 text) further identifier := by
  induction before, text using scan_induction generalizing kept position with
  | nil before =>
      change RefersAt (textLeaf kept) position identifier ↔ _
      rw [← List.append_nil (textLeaf kept)]
      exact refersAt_textLeaf
  | char before c rest hplain ih =>
      rw [splitFrom_char hplain, ih]
      constructor
      · rintro ⟨further, rfl, hrefers⟩
        refine ⟨further + 1, by rw [List.length_cons]; omega, ?_⟩
        rw [splitFrom_char hplain, ih]
        exact ⟨further, Nat.add_comm _ _, hrefers⟩
      · rintro ⟨_, rfl, hrefers⟩
        rw [splitFrom_char hplain, ih] at hrefers
        obtain ⟨further, rfl, hrefers⟩ := hrefers
        exact ⟨further, by simp only [List.length_cons, List.length_nil]; omega, hrefers⟩
  | reference before identifier behind h =>
      rw [splitFrom_reference h, splitFrom_reference h]
      exact refersAt_textLeaf

def Finds (before : Option Char) (text : Text) : Nat → Text → Prop :=
  RefersAt (splitFrom before [] 0 text)

theorem finds_char (h : c = '@' → identifier? before rest = none) :
    Finds before (c :: rest) position identifier ↔
      ∃ further, position = 1 + further ∧ Finds (some c) rest further identifier := by
  rw [Finds, splitFrom_char h, refersAt_splitFrom]
  rfl

theorem finds_reference {word : Text} (h : Identifies before word behind) :
    Finds before ('@' :: (word ++ behind)) position identifier ↔
      position = 0 ∧ identifier = word ∨
        ∃ further, position = word.length + 1 + further ∧
          Finds word.getLast? behind further identifier := by
  rw [Finds, splitFrom_reference h]
  exact refersAt_xref

/-- No earlier reference reaches past the position. -/
def Outside (finds : Nat → Text → Prop) (position : Nat) : Prop :=
  ∀ earlier word, finds earlier word → earlier < position → earlier + 1 + word.length ≤ position

theorem outside_char (h : c = '@' → identifier? before rest = none) :
    Outside (Finds before (c :: rest)) (1 + further) ↔ Outside (Finds (some c) rest) further := by
  constructor
  · intro houtside earlier word hfinds hless
    have hreaches := houtside (1 + earlier) word ((finds_char h).mpr ⟨earlier, rfl, hfinds⟩)
        (by omega)
    omega
  · intro houtside _ word hfinds hless
    obtain ⟨earlier, rfl, hlater⟩ := (finds_char h).mp hfinds
    have hreaches := houtside earlier word hlater (by omega)
    omega

theorem outside_reference {word : Text} (h : Identifies before word behind) :
    Outside (Finds before ('@' :: (word ++ behind))) (word.length + 1 + further) ↔
      Outside (Finds word.getLast? behind) further := by
  constructor
  · intro houtside earlier other hfinds hless
    have hreaches := houtside (word.length + 1 + earlier) other
      ((finds_reference h).mpr (.inr ⟨earlier, rfl, hfinds⟩)) (by omega)
    omega
  · intro houtside _ other hfinds hless
    rcases (finds_reference h).mp hfinds with ⟨rfl, rfl⟩ | ⟨earlier, rfl, hlater⟩
    · omega
    · have hreaches := houtside earlier other hlater (by omega)
      omega

theorem Outside.of_reference {word : Text} (h : Identifies before word behind)
    (houtside : Outside (Finds before ('@' :: (word ++ behind))) position) (hpos : position ≠ 0) :
    word.length + 1 ≤ position := by
  have hreaches := houtside 0 word ((finds_reference h).mpr (.inl ⟨rfl, rfl⟩)) (by omega)
  omega

theorem Identifies.opens {word : Text} (h : Identifies before word behind) :
    Opens before ('@' :: (word ++ behind)) 0 := by
  refine opens_zero.mpr ⟨rfl, ?_⟩
  rw [h.identifier?]
  exact Option.some_ne_none word

theorem Identifies.wordBehind_eq {word : Text} (h : Identifies before word behind) :
    wordBehind ('@' :: (word ++ behind)) 0 = word := by
  have hrun : (word ++ behind).takeWhile isWordChar = word ++ behind.takeWhile isWordChar :=
    List.takeWhile_append_of_pos h.word
  exact (congrArg _ hrun).trans (dropEndWhile_word h.last h.ends)

theorem Identifies.opens_behind {word : Text} (h : Identifies before word behind) :
    Opens before ('@' :: (word ++ behind)) (word.length + 1 + further) ↔
      Opens word.getLast? behind further := by
  have hlast : ('@' :: word).getLast?.or before = word.getLast? := by
    obtain ⟨last, heq⟩ := Option.isSome_iff_exists.mp (List.getLast?_isSome.mpr h.ne_nil)
    rw [List.getLast?_cons, heq]
    rfl
  rw [← hlast]
  exact opens_append ('@' :: word)

theorem finds_start {word : Text} (h : Identifies before word behind) :
    Finds before ('@' :: (word ++ behind)) 0 identifier ↔ identifier = word := by
  rw [finds_reference h]
  constructor
  · rintro (⟨-, hsame⟩ | ⟨further, hfar, -⟩)
    · exact hsame
    · omega
  · exact fun hsame => .inl ⟨rfl, hsame⟩

theorem finds_behind {word : Text} (h : Identifies before word behind) :
    Finds before ('@' :: (word ++ behind)) (word.length + 1 + further) identifier ↔
      Finds word.getLast? behind further identifier := by
  rw [finds_reference h]
  simp

/-- A reference is found where an at sign opens one outside of all earlier references. -/
theorem finds_iff (before : Option Char) (text : Text) (position : Nat) (identifier : Text) :
    Finds before text position identifier ↔
      Opens before text position ∧ identifier = wordBehind text position ∧
        Outside (Finds before text) position := by
  induction before, text using scan_induction generalizing position with
  | nil before =>
      refine iff_of_false refersAt_nil ?_
      rintro ⟨⟨hsign, -, -⟩, -⟩
      cases hsign
  | char before c rest hplain ih =>
      rw [finds_char hplain]
      cases position with
      | zero =>
          refine iff_of_false (fun ⟨_, hzero, _⟩ => by omega) ?_
          rintro ⟨hopens, -⟩
          obtain ⟨hsign, hfound⟩ := opens_zero.mp hopens
          exact hfound (hplain hsign)
      | succ further =>
          have hword : wordBehind (c :: rest) (1 + further) = wordBehind rest further :=
            wordBehind_append [c]
          rw [opens_succ, Nat.add_comm, outside_char hplain, hword, ← ih]
          simp
  | reference before word behind h ih =>
      obtain rfl | ⟨hpos, hinside⟩ | ⟨further, rfl⟩ : position = 0 ∨
          (position ≠ 0 ∧ position < word.length + 1) ∨
            ∃ further, position = word.length + 1 + further := by
        by_cases hinside : position < word.length + 1
        · omega
        · exact .inr (.inr (Nat.exists_eq_add_of_le (Nat.le_of_not_lt hinside)))
      · have houtside : Outside (Finds before ('@' :: (word ++ behind))) 0 :=
          fun _ _ _ hless => absurd hless (Nat.not_lt_zero _)
        rw [finds_start h, h.wordBehind_eq]
        exact ⟨fun hsame => ⟨h.opens, hsame, houtside⟩, fun hfound => hfound.2.1⟩
      · refine iff_of_false (fun hfinds => ?_) fun ⟨_, _, houtside⟩ => ?_
        · rcases (finds_reference h).mp hfinds with ⟨hzero, -⟩ | ⟨further, hfar, -⟩
          · exact hpos hzero
          · omega
        · exact absurd (houtside.of_reference h hpos) (Nat.not_le_of_lt hinside)
      · have hsame : wordBehind ('@' :: (word ++ behind)) (word.length + 1 + further) =
            wordBehind behind further := wordBehind_append ('@' :: word)
        rw [finds_behind h, h.opens_behind, hsame, outside_reference h]
        exact ih further

end Canonmark.XrefShortcut
