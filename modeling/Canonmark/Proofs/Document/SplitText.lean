import Canonmark.Proofs.Document.References
import Mathlib.Data.List.Chain

/-!
# What texts are split into

A text is split into texts and references that print it again, with no text empty and no two of
them next to each other. Leaves that print a text and have the references that stand in it are
the ones that it is split into.
-/

namespace Canonmark.XrefShortcut

variable {text part identifier : Text} {position : Nat} {leaves others : List Leaf}

def IsFresh : Leaf → Prop
  | .text _ => True
  | .xref identifier resolved => identifier ≠ [] ∧ resolved = false
  | _ => False

def Parted (first second : Leaf) : Prop :=
  ∀ part other, first = .text part → second ≠ .text other

/--
What a text is split into. References are found from left to right: whether an at sign starts one
depends on the earlier ones alone.
-/
structure Scanned (text : Text) (leaves : List Leaf) : Prop where
  printed : leaves.flatMap Printer.leaf = text
  fresh : ∀ leaf ∈ leaves, IsFresh leaf
  filled : text ≠ [] → .text [] ∉ leaves
  parted : leaves.IsChain Parted
  found : ∀ position identifier, RefersAt leaves position identifier ↔
    Opens none text position ∧ identifier = wordBehind text position ∧
      Outside (RefersAt leaves) position

theorem printed_splitFrom (before : Option Char) (text : Text) :
    (splitFrom before [] 0 text).flatMap Printer.leaf = text := by
  induction before, text using scan_induction with
  | nil => rfl
  | char before c rest hplain ih =>
      rw [splitFrom_char hplain, flatMap_splitFrom _ rfl fun _ _ => rfl, ih]
      rfl
  | reference before identifier behind h ih =>
      rw [splitFrom_reference h, List.flatMap_append, List.flatMap_cons, ih]
      rfl

theorem fresh_splitFrom (before : Option Char) (kept text : Text) :
    ∀ leaf ∈ splitFrom before kept 0 text, IsFresh leaf ∧ leaf ≠ .text [] := by
  have hfront (kept : Text) : ∀ leaf ∈ textLeaf kept, IsFresh leaf ∧ leaf ≠ .text [] := by
    cases kept <;> simp [textLeaf, IsFresh]
  induction before, text using scan_induction generalizing kept with
  | nil => exact hfront kept
  | char before c rest hplain ih =>
      rw [splitFrom_char hplain]
      exact ih (c :: kept)
  | reference before identifier behind h ih =>
      rw [splitFrom_reference h, List.forall_mem_append, List.forall_mem_cons]
      exact ⟨hfront kept, ⟨⟨h.ne_nil, rfl⟩, Leaf.noConfusion⟩, ih []⟩

theorem parted_splitFrom (before : Option Char) (kept text : Text) :
    (splitFrom before kept 0 text).IsChain Parted := by
  induction before, text using scan_induction generalizing kept with
  | nil =>
      change (textLeaf kept).IsChain Parted
      cases kept with
      | nil => exact .nil
      | cons => exact .singleton _
  | char before c rest hplain ih =>
      rw [splitFrom_char hplain]
      exact ih (c :: kept)
  | reference before identifier behind h ih =>
      have hlater : (Leaf.xref identifier false :: splitFrom identifier.getLast? [] 0
          behind).IsChain Parted := List.isChain_cons.mpr ⟨fun _ _ _ _ his => (nomatch his), ih []⟩
      rw [splitFrom_reference h]
      cases kept with
      | nil => exact hlater
      | cons => exact .cons_cons (fun _ _ _ his => nomatch his) hlater

theorem split_eq_splitFrom (hfilled : text ≠ []) : split text = splitFrom none [] 0 text := by
  rw [split]
  split
  · rfl
  · next hfree =>
      obtain ⟨c, rest, rfl⟩ := List.exists_cons_of_ne_nil hfilled
      rw [splitFrom_free none [] (by simpa using hfree)]
      simp [textLeaf]

theorem scanned_split (text : Text) : Scanned text (split text) := by
  by_cases hfilled : text = []
  · subst hfilled
    refine ⟨rfl, by simp [split, IsFresh], fun h => absurd rfl h, .singleton _, ?_⟩
    refine fun position identifier => iff_of_false not_refersAt_single ?_
    rintro ⟨⟨hsign, -, -⟩, -⟩
    cases hsign
  · rw [split_eq_splitFrom hfilled]
    have hleaves := fresh_splitFrom none [] text
    exact ⟨printed_splitFrom none text, fun leaf hmem => (hleaves leaf hmem).1,
      fun _ hmem => (hleaves _ hmem).2 rfl, parted_splitFrom none [] text, finds_iff none text⟩

structure Solid (leaves : List Leaf) : Prop where
  fresh : ∀ leaf ∈ leaves, IsFresh leaf
  filled : .text [] ∉ leaves
  parted : leaves.IsChain Parted

namespace Solid

theorem tail {leaf : Leaf} (h : Solid (leaf :: leaves)) : Solid leaves where
  fresh := fun leaf hmem => h.fresh leaf (List.mem_cons_of_mem _ hmem)
  filled := fun hmem => h.filled (List.mem_cons_of_mem _ hmem)
  parted := (List.isChain_cons.mp h.parted).2

theorem head {leaf : Leaf} (h : Solid (leaf :: leaves)) :
    (∃ part, leaf = .text part ∧ part ≠ []) ∨ ∃ word, leaf = .xref word false := by
  have hfresh := h.fresh leaf List.mem_cons_self
  cases leaf with
  | text part => exact .inl ⟨part, rfl, fun hnone => h.filled (hnone ▸ List.mem_cons_self)⟩
  | xref word resolved =>
      obtain rfl : resolved = false := hfresh.2
      exact .inr ⟨word, rfl⟩
  | _ => exact hfresh.elim

theorem behind_text (h : Solid (.text part :: leaves)) :
    leaves = [] ∨ ∃ word rest, leaves = .xref word false :: rest := by
  cases leaves with
  | nil => exact .inl rfl
  | cons leaf rest =>
      rcases h.tail.head with ⟨other, rfl, -⟩ | ⟨word, rfl⟩
      · exact absurd rfl ((List.isChain_cons_cons.mp h.parted).1 part other rfl)
      · exact .inr ⟨word, rest, rfl⟩

theorem eq_nil (h : Solid leaves) (hprinted : leaves.flatMap Printer.leaf = []) : leaves = [] := by
  cases leaves with
  | nil => rfl
  | cons leaf rest =>
      rw [List.flatMap_cons, List.append_eq_nil_iff] at hprinted
      rcases h.head with ⟨part, rfl, hfilled⟩ | ⟨word, rfl⟩
      · exact absurd hprinted.1 hfilled
      · cases hprinted.1

theorem refersAt_zero (h : Solid leaves) :
    RefersAt leaves 0 identifier ↔ ∃ rest, leaves = .xref identifier false :: rest := by
  constructor
  · intro hrefers
    cases leaves with
    | nil => exact (refersAt_nil hrefers).elim
    | cons leaf rest =>
        rcases h.head with ⟨part, rfl, hfilled⟩ | ⟨word, rfl⟩
        · obtain ⟨further, hzero, -⟩ := refersAt_text.mp hrefers
          exact absurd (List.length_eq_zero_iff.mp (by omega)) hfilled
        · rcases refersAt_xref.mp hrefers with ⟨-, rfl⟩ | ⟨further, hzero, -⟩
          · exact ⟨rest, rfl⟩
          · omega
  · rintro ⟨rest, rfl⟩
    exact refersAt_xref.mpr (.inl ⟨rfl, rfl⟩)

theorem length_le {other : Text} (h : Solid (.text part :: leaves))
    (hprinted : (Leaf.text part :: leaves).flatMap Printer.leaf =
      (Leaf.text other :: others).flatMap Printer.leaf)
    (hsame : ∀ position identifier, RefersAt (.text part :: leaves) position identifier ↔
      RefersAt (.text other :: others) position identifier) :
    other.length ≤ part.length := by
  rcases h.behind_text with rfl | ⟨word, rest, rfl⟩
  · have hsize := congrArg List.length hprinted
    have hfront : Printer.leaf (.text part) = part := rfl
    have hback : Printer.leaf (.text other) = other := rfl
    simp only [List.flatMap_cons, List.flatMap_nil, List.length_append, List.length_nil, hfront,
      hback] at hsize
    omega
  · have hrefers : RefersAt (.text part :: .xref word false :: rest) part.length word :=
      refersAt_text.mpr ⟨0, rfl, refersAt_xref.mpr (.inl ⟨rfl, rfl⟩)⟩
    obtain ⟨further, hfar, -⟩ := refersAt_text.mp ((hsame _ _).mp hrefers)
    omega

end Solid

/-- Leaves that print the same text with the same references in it are the same. -/
theorem eq_of_refersAt (hsolid : Solid leaves) (hsolid' : Solid others)
    (hprinted : leaves.flatMap Printer.leaf = others.flatMap Printer.leaf)
    (hsame : ∀ position identifier, RefersAt leaves position identifier ↔
      RefersAt others position identifier) : leaves = others := by
  induction leaves generalizing others with
  | nil => exact (hsolid'.eq_nil hprinted.symm).symm
  | cons leaf rest ih =>
      rcases hsolid.head with ⟨part, rfl, hfilled⟩ | ⟨word, rfl⟩
      · obtain ⟨other, rest', rfl⟩ : ∃ other rest', others = .text other :: rest' := by
          cases others with
          | nil => cases hsolid.eq_nil hprinted
          | cons leaf' rest' =>
              rcases hsolid'.head with ⟨other, rfl, -⟩ | ⟨word, rfl⟩
              · exact ⟨other, rest', rfl⟩
              · have hrefers := (hsame 0 word).mpr (hsolid'.refersAt_zero.mpr ⟨rest', rfl⟩)
                obtain ⟨_, his⟩ := hsolid.refersAt_zero.mp hrefers
                cases his
        have hsize : part.length = other.length := Nat.le_antisymm
          (hsolid'.length_le hprinted.symm fun position identifier =>
          (hsame position identifier).symm)
          (hsolid.length_le hprinted hsame)
        obtain ⟨htexts, hbehind⟩ := List.append_inj hprinted hsize
        obtain rfl : part = other := htexts
        refine congrArg _ (ih hsolid.tail hsolid'.tail hbehind fun position identifier => ?_)
        simpa [refersAt_text] using hsame (part.length + position) identifier
      · have hrefers := (hsame 0 word).mp (hsolid.refersAt_zero.mpr ⟨rest, rfl⟩)
        obtain ⟨rest', rfl⟩ := hsolid'.refersAt_zero.mp hrefers
        have hbehind := List.append_cancel_left hprinted
        refine congrArg _ (ih hsolid.tail hsolid'.tail hbehind fun position identifier => ?_)
        simpa [refersAt_xref] using hsame (word.length + 1 + position) identifier

namespace Scanned

theorem solid (h : Scanned text leaves) (hfilled : text ≠ []) : Solid leaves :=
  ⟨h.fresh, h.filled hfilled, h.parted⟩

theorem refersAt_iff (h : Scanned text leaves) (h' : Scanned text others) (position : Nat)
    (identifier : Text) :
    RefersAt leaves position identifier ↔ RefersAt others position identifier := by
  induction position using Nat.strong_induction_on generalizing identifier with
  | h position ih =>
      have houtside : Outside (RefersAt leaves) position ↔ Outside (RefersAt others) position := by
        refine forall₂_congr fun earlier word => ⟨fun hreaches hrefers hless => ?_,
          fun hreaches hrefers hless => ?_⟩
        · exact hreaches ((ih earlier hless word).mpr hrefers) hless
        · exact hreaches ((ih earlier hless word).mp hrefers) hless
      rw [h.found, h'.found, houtside]

theorem eq_split (h : Scanned text leaves) (hfilled : text ≠ []) : leaves = split text := by
  have hsplit := scanned_split text
  exact eq_of_refersAt (h.solid hfilled) (hsplit.solid hfilled)
    (h.printed.trans hsplit.printed.symm) (h.refersAt_iff hsplit)

end Scanned

/--
A text is split without loss, and at its references: an at sign that opens one outside of all
earlier references starts one, up to the next white space and without trailing characters. Nothing
else is what a text that is not empty is split into.
-/
theorem split_exact (text : Text) :
    Scanned text (split text) ∧
      (text ≠ [] → ∀ leaves, Scanned text leaves → leaves = split text) :=
  ⟨scanned_split text, fun hfilled _ hscanned => hscanned.eq_split hfilled⟩

/-- An at sign in a reference starts none, and neither does one that continues a word. -/
example : split "a@b (@Foo.@Bar), @c".toList =
    [.text "a@b (".toList, .xref "Foo.@Bar".toList false, .text "), ".toList,
      .xref "c".toList false] := by
  decide

theorem split_of_free (hfree : ∀ position, ¬Opens none text position) :
    split text = [.text text] := by
  by_cases hfilled : text = []
  · rw [hfilled]
    rfl
  · have hsingle : Scanned text [.text text] :=
      { printed := List.append_nil text
        fresh := by simp [IsFresh]
        filled := by simp [hfilled]
        parted := .singleton _
        found := fun position identifier =>
          iff_of_false not_refersAt_single fun hfound => hfree position hfound.1 }
    exact (hsingle.eq_split hfilled).symm

theorem split_ne_of_opens (h : Opens none text position) : split text ≠ [.text part] := by
  intro hsingle
  have hnothing (earlier : Nat) (word : Text) : ¬RefersAt (split text) earlier word :=
    hsingle ▸ not_refersAt_single
  refine hnothing position _ (((scanned_split text).found position _).mpr ⟨h, rfl, ?_⟩)
  exact fun earlier word hrefers => absurd hrefers (hnothing earlier word)

end Canonmark.XrefShortcut
