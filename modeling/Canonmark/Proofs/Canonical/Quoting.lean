import Canonmark.Proofs.Canonical.Told
import Canonmark.Proofs.Document.Shortcut

/-!
# Quoted references

References in a text are quoted when their targets are known. Quoting once more changes nothing,
unless a quoted identifier holds an at sign that starts another known reference.
-/

namespace Canonmark.Canonical

open XrefShortcut

variable {known : Text → Bool} {before : Option Char} {identifier behind rest : Text}
variable {mark : Char}

def quoted (known : Text → Bool) (text : Text) : Text :=
  Printer.inlines (toldAll known 0 (splitAll [.leaf (.text text)]))

def quoteFrom (known : Text → Bool) (before : Option Char) (text : Text) : Text :=
  (splitFrom before [] 0 text).flatMap fun content => Printer.leaf (toldLeaf known content)

theorem printed_leaves (known : Text → Bool) (depth : Nat) (leaves : List Leaf) :
    Printer.inlines (toldAll known depth (leaves.map .leaf)) =
      leaves.flatMap fun content => Printer.leaf (toldLeaf known content) := by
  induction leaves generalizing depth with
  | nil => rw [List.map_nil, toldAll_nil]; rfl
  | cons content leaves ih =>
      rw [List.map_cons, List.flatMap_cons, ← ih (depthAfter depth (.leaf content)), toldAll_cons,
        told_leaf, elements, ite_self]
      rfl

theorem quoted_eq_quoteFrom (known : Text → Bool) (text : Text) :
    quoted known text = quoteFrom known none text := by
  have hleaves : splitAll [.leaf (.text text)] = (split text).map .leaf := List.append_nil _
  rw [quoted, hleaves, printed_leaves, quoteFrom, flatMap_split _ rfl]

theorem quoteFrom_char {c : Char} (h : c = '@' → identifier? before rest = none) :
    quoteFrom known before (c :: rest) = c :: quoteFrom known (some c) rest := by
  rw [quoteFrom, splitFrom_char h, flatMap_splitFrom _ rfl fun _ _ => rfl]
  rfl

theorem quoteFrom_reference (h : Identifies before identifier behind) :
    quoteFrom known before ('@' :: (identifier ++ behind)) =
      Printer.leaf (.xref identifier (known identifier)) ++
        quoteFrom known identifier.getLast? behind := by
  rw [quoteFrom, splitFrom_reference h]
  rfl

/-- What stands in front of a text only counts for an at sign. -/
theorem quoteFrom_before {text : Text} (h : text.head? ≠ some '@') (before before' : Option Char) :
    quoteFrom known before text = quoteFrom known before' text := by
  cases text with
  | nil => rfl
  | cons c rest =>
      have hother : c ≠ '@' := fun hsame => h (congrArg some hsame)
      rw [quoteFrom_char fun hat => absurd hat hother, quoteFrom_char fun hat => absurd hat hother]

theorem leaf_xref (identifier : Text) (resolved : Bool) :
    (Printer.xrefQuote? identifier resolved = none ∧
        Printer.leaf (.xref identifier resolved) = '@' :: identifier) ∨
      ∃ mark, Printer.xrefQuote? identifier resolved = some mark ∧
        Printer.leaf (.xref identifier resolved) = '@' :: mark :: (identifier ++ [mark]) := by
  delta Printer.leaf
  dsimp only
  cases Printer.xrefQuote? identifier resolved with
  | none => exact .inl ⟨rfl, rfl⟩
  | some mark => exact .inr ⟨mark, rfl, rfl⟩

theorem head?_quoteFrom (known : Text → Bool) (before : Option Char) (text : Text) :
    (quoteFrom known before text).head? = text.head? := by
  induction before, text using scan_induction with
  | nil => rfl
  | char before c rest hplain => rw [quoteFrom_char hplain, List.head?_cons, List.head?_cons]
  | reference before identifier behind h =>
      rw [quoteFrom_reference h]
      rcases leaf_xref identifier (known identifier) with ⟨-, heq⟩ | ⟨mark, -, heq⟩
      all_goals rw [heq, List.cons_append, List.head?_cons, List.head?_cons]

theorem length_le_quoteFrom (known : Text → Bool) (before : Option Char) (text : Text) :
    text.length ≤ (quoteFrom known before text).length := by
  induction before, text using scan_induction with
  | nil => exact Nat.zero_le _
  | char before c rest hplain ih =>
      rw [quoteFrom_char hplain]
      exact Nat.succ_le_succ ih
  | reference before identifier behind h ih =>
      rw [quoteFrom_reference h]
      rcases leaf_xref identifier (known identifier) with ⟨-, heq⟩ | ⟨mark, -, heq⟩
      all_goals
        rw [heq]
        simp only [List.length_cons, List.length_append, List.length_nil]
        omega

theorem endsWord_quoteFrom (before : Option Char) (h : EndsWord behind) :
    EndsWord (quoteFrom known before behind) := by
  induction before, behind using scan_induction with
  | nil => exact h
  | char before c rest hplain ih =>
      rw [quoteFrom_char hplain]
      by_cases hword : isWordChar c = true
      · obtain ⟨htrailing, hends⟩ := (endsWord_cons hword).mp h
        exact (endsWord_cons hword).mpr ⟨htrailing, ih hends⟩
      · intro d hmem
        rw [List.takeWhile_cons, if_neg hword] at hmem
        cases hmem
  | reference => exact absurd rfl h.head?

theorem identifies_quoteFrom (h : Identifies before identifier behind) (last : Option Char) :
    Identifies before identifier (quoteFrom known last behind) :=
  { h with ends := endsWord_quoteFrom last h.ends }

structure IsMark (mark : Char) : Prop where
  trailing : isTrailing mark = true
  word : isWordChar mark = true

theorem isMark (h : Printer.xrefQuote? identifier (known identifier) = some mark) :
    IsMark mark := by
  rw [Printer.xrefQuote?] at h
  split at h
  · cases h
  · split at h
    · cases h
      exact ⟨rfl, rfl⟩
    · split at h
      · cases h
        exact ⟨rfl, rfl⟩
      · cases h

namespace IsMark

theorem plain (h : IsMark mark) : mark = '@' → identifier? before rest = none :=
  fun hat => absurd hat (isTrailing_spec h.trailing).2

theorem endsWord (h : IsMark mark) (hends : EndsWord rest) : EndsWord (mark :: rest) :=
  (endsWord_cons h.word).mpr ⟨h.trailing, hends⟩

theorem quoteFrom_word (h : IsMark mark) {word : Text} (before : Option Char)
    (hinWord : ∀ c ∈ word, isWordChar c = true) (hends : EndsWord behind) :
    quoteFrom known before (word ++ mark :: behind) =
      quoteFrom known before word ++ mark :: quoteFrom known (some mark) behind := by
  induction before, word using scan_induction with
  | nil before => exact quoteFrom_char h.plain
  | char before c rest hplain ih =>
      have hstill : c = '@' → identifier? before (rest ++ mark :: behind) = none := fun hat => by
        have hnone := hplain hat
        rw [identifier?_eq_none_iff] at hnone ⊢
        cases rest with
        | nil => exact .inr (isTrailing_spec h.trailing).1
        | cons d rest => exact hnone
      rw [List.cons_append, quoteFrom_char hstill, quoteFrom_char hplain,
        ih fun d hmem => hinWord d (List.mem_cons_of_mem c hmem)]
      rfl
  | reference before identifier inner hidentifies ih =>
      have hinnerWord : ∀ c ∈ inner, isWordChar c = true := fun c hmem =>
        hinWord c (List.mem_cons_of_mem _ (List.mem_append_right _ hmem))
      have hlast : EndsWord (inner ++ []) := by
        rw [List.append_nil]
        exact hidentifies.ends
      have hfurther : Identifies before identifier (inner ++ mark :: behind) :=
        { hidentifies with
          ends := (endsWord_append hinnerWord).mpr
            ⟨((endsWord_append hinnerWord).mp hlast).1, h.endsWord hends⟩ }
      rw [List.cons_append, List.append_assoc, quoteFrom_reference hfurther,
        quoteFrom_reference hidentifies, ih hinnerWord, List.append_assoc]

end IsMark

theorem mem_quoteFrom {c : Char} {text : Text} (hmem : c ∈ quoteFrom known before text) :
    c ∈ text ∨ IsMark c := by
  induction before, text using scan_induction with
  | nil before => exact .inl hmem
  | char before d rest hplain ih =>
      rw [quoteFrom_char hplain] at hmem
      rcases List.mem_cons.mp hmem with rfl | hmem
      · exact .inl List.mem_cons_self
      · exact (ih hmem).imp_left (List.mem_cons_of_mem d)
  | reference before identifier behind h ih =>
      rw [quoteFrom_reference h] at hmem
      rcases leaf_xref identifier (known identifier) with ⟨-, heq⟩ | ⟨mark, hfound, heq⟩
      · rw [heq, List.cons_append, List.mem_cons, List.mem_append] at hmem
        rw [List.mem_cons, List.mem_append]
        tauto
      · rw [heq] at hmem
        simp only [List.cons_append, List.append_assoc, List.nil_append, List.mem_cons,
          List.mem_append] at hmem ⊢
        have hmarked : c = mark → IsMark c := fun hsame => hsame ▸ isMark hfound
        tauto

theorem feed_quoted (known : Text → Bool) {line : Text} (hfeed : '\n' ∉ line) :
    '\n' ∉ quoted known line := by
  intro hmem
  rw [quoted_eq_quoteFrom] at hmem
  rcases mem_quoteFrom hmem with hinside | hmark
  · exact hfeed hinside
  · exact absurd hmark.word (by decide)

def identifiersFrom (before : Option Char) (text : Text) : List Text :=
  (splitFrom before [] 0 text).flatMap fun content => content.identifier?.toList

theorem identifiersFrom_char {c : Char} (h : c = '@' → identifier? before rest = none) :
    identifiersFrom before (c :: rest) = identifiersFrom (some c) rest := by
  rw [identifiersFrom, splitFrom_char h, flatMap_splitFrom _ rfl fun _ _ => rfl]
  rfl

theorem identifiersFrom_reference (h : Identifies before identifier behind) :
    identifiersFrom before ('@' :: (identifier ++ behind)) =
      identifier :: identifiersFrom identifier.getLast? behind := by
  rw [identifiersFrom, splitFrom_reference h]
  rfl

/-- The identifier is quoted and has a known reference in it. -/
def Requoted (known : Text → Bool) (identifier : Text) : Prop :=
  (Printer.xrefQuote? identifier (known identifier)).isSome = true ∧
    quoted known identifier ≠ identifier

theorem quoteFrom_unquoted (h : Identifies before identifier behind)
    (hunquoted : Printer.leaf (.xref identifier (known identifier)) = '@' :: identifier) :
    quoteFrom known before (quoteFrom known before ('@' :: (identifier ++ behind))) =
      '@' :: (identifier ++ quoteFrom known identifier.getLast?
        (quoteFrom known identifier.getLast? behind)) := by
  rw [quoteFrom_reference h, hunquoted, List.cons_append,
    quoteFrom_reference (identifies_quoteFrom h identifier.getLast?), hunquoted, List.cons_append]

theorem quoteFrom_quoted (h : Identifies before identifier behind) (hmark : IsMark mark)
    (hmarked : Printer.leaf (.xref identifier (known identifier)) =
      '@' :: mark :: (identifier ++ [mark])) :
    quoteFrom known before (quoteFrom known before ('@' :: (identifier ++ behind))) =
      '@' :: mark :: (quoted known identifier ++ mark ::
        quoteFrom known identifier.getLast? (quoteFrom known identifier.getLast? behind)) := by
  have hstart : identifier? before (mark :: (identifier ++ mark ::
      quoteFrom known identifier.getLast? behind)) = none :=
    identifier?_eq_none_iff.mpr (.inr (isTrailing_spec hmark.trailing).1)
  have hnoAt : identifier.head? ≠ some '@' := fun hsame => by
    have hletter := h.letter
    rw [hsame] at hletter
    exact absurd hletter (by decide)
  have hbehindAt : (quoteFrom known identifier.getLast? behind).head? ≠ some '@' := by
    rw [head?_quoteFrom]
    exact h.ends.head?
  rw [quoteFrom_reference h, hmarked]
  simp only [List.cons_append, List.append_assoc, List.nil_append]
  rw [quoteFrom_char fun _ => hstart, quoteFrom_char hmark.plain,
    hmark.quoteFrom_word _ h.word (endsWord_quoteFrom _ h.ends), quoted_eq_quoteFrom,
    quoteFrom_before hnoAt (some mark) none, quoteFrom_before hbehindAt (some mark)]

theorem append_cons_inj {first first' second second' : Text}
    (hlonger : first'.length ≤ first.length) (hlonger' : second'.length ≤ second.length) :
    first ++ mark :: second = first' ++ mark :: second' ↔ first = first' ∧ second = second' := by
  constructor
  · intro hsame
    have hlengths := congrArg List.length hsame
    simp only [List.length_append, List.length_cons] at hlengths
    obtain ⟨hfronts, hends⟩ := List.append_inj hsame (by omega)
    exact ⟨hfronts, (List.cons_inj_right mark).mp hends⟩
  · rintro ⟨rfl, rfl⟩
    rfl

theorem quoteFrom_quoteFrom_iff (known : Text → Bool) (before : Option Char) (text : Text) :
    quoteFrom known before (quoteFrom known before text) = quoteFrom known before text ↔
      ∀ identifier ∈ identifiersFrom before text, ¬Requoted known identifier := by
  induction before, text using scan_induction with
  | nil before => exact iff_of_true rfl fun _ hmem => absurd hmem List.not_mem_nil
  | char before c rest hplain ih =>
      have hstill : c = '@' → identifier? before (quoteFrom known (some c) rest) = none :=
        fun hat => by
          rw [identifier?_eq_none_iff, head?_quoteFrom, ← identifier?_eq_none_iff]
          exact hplain hat
      rw [quoteFrom_char hplain, quoteFrom_char hstill, List.cons_inj_right, ih,
        identifiersFrom_char hplain]
  | reference before identifier behind h ih =>
      rw [identifiersFrom_reference h, List.forall_mem_cons, ← ih]
      rcases leaf_xref identifier (known identifier) with ⟨hnone, hunquoted⟩
        | ⟨mark, hfound, hmarked⟩
      · have hkept : ¬Requoted known identifier := fun hagain => by
          rw [Requoted, hnone] at hagain
          exact Bool.false_ne_true hagain.1
        rw [quoteFrom_unquoted h hunquoted, quoteFrom_reference h, hunquoted, List.cons_append,
          List.cons_inj_right, List.append_cancel_left_eq]
        exact (and_iff_right hkept).symm
      · have hagain : ¬Requoted known identifier ↔ quoted known identifier = identifier := by
          rw [Requoted, hfound, Option.isSome_some, and_iff_right rfl, not_not]
        have hlonger := length_le_quoteFrom known none identifier
        rw [quoteFrom_quoted h (isMark hfound) hmarked, quoteFrom_reference h, hmarked, hagain]
        rw [← quoted_eq_quoteFrom] at hlonger
        simp only [List.cons_append, List.append_assoc, List.nil_append, List.cons_inj_right]
        exact append_cons_inj hlonger (length_le_quoteFrom known identifier.getLast? _)

/--
Quoting twice is quoting once, unless a quoted identifier has a known reference in it: what is
quoted is found again only inside such an identifier.
-/
theorem quoted_quoted_iff (known : Text → Bool) (text : Text) :
    quoted known (quoted known text) = quoted known text ↔
      ∀ identifier ∈ (split text).filterMap Leaf.identifier?, ¬Requoted known identifier := by
  have hidentifiers : (split text).filterMap Leaf.identifier? = identifiersFrom none text := by
    rw [identifiersFrom, ← flatMap_split _ rfl, List.filterMap_eq_flatMap_toList]
  rw [hidentifiers, quoted_eq_quoteFrom, quoted_eq_quoteFrom]
  exact quoteFrom_quoteFrom_iff known none text

/-- A known identifier in another one is found when the other one has been quoted. -/
example :
    let known : Text → Bool := fun identifier =>
      identifier = "Foo.@Bar".toList || identifier = "Bar".toList
    quoted known "@Foo.@Bar".toList = "@\"Foo.@Bar\"".toList ∧
      quoted known "@\"Foo.@Bar\"".toList = "@\"Foo.@\"Bar\"\"".toList := by
  decide +kernel

theorem quoted_free (known : Text → Bool) {text : Text} (hfree : '@' ∉ text) :
    quoted known text = text := by
  rw [quoted_eq_quoteFrom, quoteFrom, splitFrom_free none [] hfree, List.append_nil]
  cases text with
  | nil => rfl
  | cons c rest =>
      have hprinted : Printer.leaf (.text (c :: rest)) = c :: rest := rfl
      simpa [textLeaf, toldLeaf, leaf] using hprinted

/-- Quoted references are never found again when known identifiers hold no at sign. -/
theorem quoted_quoted (h : ∀ identifier, known identifier = true → '@' ∉ identifier)
    (text : Text) : quoted known (quoted known text) = quoted known text := by
  refine (quoted_quoted_iff known text).mpr fun identifier _ hagain => hagain.2 ?_
  refine quoted_free known (h identifier ?_)
  by_contra hunknown
  rw [Requoted, eq_false_of_ne_true hunknown] at hagain
  exact Bool.false_ne_true hagain.1

end Canonmark.Canonical
