import Canonmark.Canonical.Inline
import Canonmark.Proofs.Canonical.Told
import Canonmark.Proofs.Printed.Autolinks

/-!
# Canonical autolinks

An autolink is printed as it was written, but one with the scheme of mail loses the scheme if an
address is left. Printed so, it is read as a mail link with the same address, and is canonical;
only where the address begins as markup does is the line it begins taken for HTML.
-/

namespace Canonmark

open Source.Autolink (IsAddress IsUri Links opensMarkup opensMarkup_uri)
open Printed (bracketed alone)

def isMail (scheme : Text) : Bool := Ascii.equalsIgnoringCase scheme "mailto".toList

theorem isMail_of_xref {scheme : Text}
    (h : Ascii.equalsIgnoringCase scheme "xref".toList = true) : isMail scheme = false := by
  rw [Ascii.equalsIgnoringCase, beq_iff_eq] at h
  rw [isMail, Ascii.equalsIgnoringCase, h]
  rfl

theorem not_xref_of_isMail {scheme : Text} (h : isMail scheme = true) :
    ¬Ascii.equalsIgnoringCase scheme "xref".toList = true := fun hxref =>
  Bool.false_ne_true ((isMail_of_xref hxref).symm.trans h)

namespace Builder

theorem autolink_bracketed {scheme : Text} (hcolon : ':' ∉ scheme) (rest : Text) :
    autolink (bracketed (scheme ++ ':' :: rest)) =
      if Ascii.equalsIgnoringCase scheme "xref".toList then .autolinkXref scheme rest
      else if isMail scheme then .mail (some scheme) rest
      else .autolink (scheme ++ ':' :: rest) := by
  have hinner : (scheme ++ ':' :: rest ++ ['>']).getLast? = some '>' := List.getLast?_concat
  unfold autolink bracketed
  simp only [hinner, List.dropLast_concat, Text.splitAtFirst?_of_notMem hcolon, if_true]
  rfl

theorem autolink_ne_html {scheme : Text} (hcolon : ':' ∉ scheme) (rest html : Text) :
    autolink (bracketed (scheme ++ ':' :: rest)) ≠ .html html := by
  rw [autolink_bracketed hcolon]
  split
  · exact Leaf.noConfusion
  split
  · exact Leaf.noConfusion
  · exact Leaf.noConfusion

end Builder

namespace Canonical

theorem isAddress_iff {text : Text} : isAddress text = true ↔ IsAddress text := by
  rw [isAddress, decide_eq_true_eq, Source.Autolink.address?_eq_some_iff]
  exact and_iff_left ⟨[], rfl⟩

/-- What is left of a URI between brackets: the address alone, if the scheme is that of mail. -/
def shortened (scheme rest : Text) : Text :=
  if isMail scheme && isAddress rest then rest else scheme ++ ':' :: rest

theorem shortened_eq_rest (scheme rest : Text) :
    shortened scheme rest = rest ↔ isMail scheme = true ∧ IsAddress rest := by
  have hlonger : scheme ++ ':' :: rest ≠ rest := by
    intro hsame
    have hlength := congrArg List.length hsame
    rw [List.length_append, List.length_cons] at hlength
    omega
  rw [← isAddress_iff, shortened, ← Bool.and_eq_true]
  cases isMail scheme && isAddress rest with
  | true => simp
  | false => simp [hlonger]

def autolinkLeaf (scheme rest : Text) : Leaf :=
  if Ascii.equalsIgnoringCase scheme "xref".toList then .autolinkXref scheme rest
  else if isMail scheme then .mail (if isAddress rest then none else some scheme) rest
  else .autolink (scheme ++ ':' :: rest)

theorem autolinkLeaf_mail {scheme : Text} (hmail : isMail scheme = true) (rest : Text) :
    autolinkLeaf scheme rest = .mail (if isAddress rest then none else some scheme) rest := by
  rw [autolinkLeaf, if_neg (not_xref_of_isMail hmail), if_pos hmail]

theorem autolinkLeaf_kept {scheme rest : Text} (hcolon : ':' ∉ scheme)
    (hkept : (isMail scheme && isAddress rest) = false) :
    autolinkLeaf scheme rest = Builder.autolink (bracketed (scheme ++ ':' :: rest)) := by
  rw [Builder.autolink_bracketed hcolon, autolinkLeaf]
  split
  · rfl
  split
  · next hmail =>
    rw [hmail, Bool.true_and] at hkept
    rw [hkept]
    rfl
  · rfl

theorem autolinkLeaf_ne_html (scheme rest html : Text) :
    autolinkLeaf scheme rest ≠ .html html := by
  rw [autolinkLeaf]
  split
  · exact Leaf.noConfusion
  split
  · exact Leaf.noConfusion
  · exact Leaf.noConfusion

theorem leaf_autolink {m : Type → Type} [Monad m] (ask : Text → m Bool) {scheme : Text}
    (hcolon : ':' ∉ scheme) (rest : Text) :
    leaf ask (Builder.autolink (bracketed (scheme ++ ':' :: rest))) =
      pure (autolinkLeaf scheme rest) := by
  rw [Builder.autolink_bracketed hcolon, autolinkLeaf]
  split
  · rfl
  split
  · rfl
  · rfl

theorem toldLeaf_autolink (known : Text → Bool) {scheme : Text} (hcolon : ':' ∉ scheme)
    (rest : Text) :
    toldLeaf known (Builder.autolink (bracketed (scheme ++ ':' :: rest))) =
      autolinkLeaf scheme rest := by
  rw [toldLeaf, leaf_autolink _ hcolon]
  rfl

theorem toldLeaf_autolinkLeaf (known : Text → Bool) (scheme rest : Text) :
    toldLeaf known (autolinkLeaf scheme rest) = autolinkLeaf scheme rest := by
  rw [autolinkLeaf]
  split
  · rfl
  split
  · cases haddress : isAddress rest with
    | true => simp [toldLeaf, leaf]
    | false => simp [toldLeaf, leaf, haddress]
  · rfl

theorem printed_autolinkLeaf (scheme rest : Text) :
    Printer.leaf (autolinkLeaf scheme rest) = bracketed (shortened scheme rest) := by
  have hwhole : '<' :: scheme ++ ':' :: rest ++ ['>'] = bracketed (scheme ++ ':' :: rest) := by
    rw [bracketed, List.cons_append, List.cons_append]
  rw [shortened]
  cases hmail : isMail scheme with
  | false =>
      rw [autolinkLeaf, hmail, Bool.false_and, if_neg Bool.false_ne_true,
        if_neg Bool.false_ne_true]
      split
      · exact hwhole
      · rfl
  | true =>
      rw [autolinkLeaf_mail hmail, Bool.true_and]
      cases isAddress rest with
      | false => exact hwhole
      | true => rfl

theorem document_leaf (scope : Scope) {content : Leaf} (hnoHtml : ∀ html, content ≠ .html html) :
    (document scope [.paragraph [.leaf content]]).value =
      [.paragraph [.leaf (toldLeaf scope.knows content)]] := by
  have hshallow : depthAfter 0 (.leaf content) = 0 := by
    cases content with
    | html html => exact absurd rfl (hnoHtml html)
    | _ => rfl
  rw [document_value, toldBlocks_cons, toldBlocks_nil, toldBlock_paragraph, toldAll_cons, hshallow,
    if_pos rfl, toldAll_nil, told_leaf]
  rfl

theorem printed_leaf (compact : Bool) (content : Leaf) :
    Printer.document compact [.paragraph [.leaf content]] = alone (Printer.leaf content) := by
  have hline : Printer.block (.paragraph [.leaf content]) = Printer.leaf content := by
    simp [Printer.block, Printer.inlines, Printer.inline]
  rw [Printer.document, List.flatMap_cons, List.flatMap_nil, List.append_nil, hline]
  cases compact <;> rfl

def autolinkDocument (scheme rest : Text) : Document :=
  [.paragraph [.leaf (autolinkLeaf scheme rest)]]

theorem document_autolinkDocument (scope : Scope) (scheme rest : Text) :
    (document scope (autolinkDocument scheme rest)).value = autolinkDocument scheme rest := by
  rw [autolinkDocument, document_leaf scope (autolinkLeaf_ne_html scheme rest),
    toldLeaf_autolinkLeaf]

theorem printed_autolinkDocument (compact : Bool) (scheme rest : Text) :
    Printer.document compact (autolinkDocument scheme rest) =
      alone (bracketed (shortened scheme rest)) := by
  rw [autolinkDocument, printed_leaf, printed_autolinkLeaf]

variable {scheme rest : Text} (extensions : Extensions)

theorem document_autolink (scope : Scope) (huri : IsUri (scheme ++ ':' :: rest))
    (hcolon : ':' ∉ scheme) :
    (document scope (Document.read extensions
      (alone (bracketed (scheme ++ ':' :: rest))))).value = autolinkDocument scheme rest := by
  rw [Document.read_autolink extensions (.uri huri) (opensMarkup_uri huri)]
  change (document scope [.paragraph [.leaf (Builder.autolink
    (bracketed (scheme ++ ':' :: rest)))]]).value = _
  rw [document_leaf scope (Builder.autolink_ne_html hcolon rest), toldLeaf_autolink _ hcolon]
  rfl

theorem exists_links (huri : IsUri (scheme ++ ':' :: rest)) (hcolon : ':' ∉ scheme) :
    ∃ form, Links form (shortened scheme rest) ∧
      Leaf.ofLink form (shortened scheme rest) = autolinkLeaf scheme rest := by
  cases hshort : isMail scheme && isAddress rest with
  | true =>
      obtain ⟨hmail, haddress⟩ := (Bool.and_eq_true _ _).mp hshort
      rw [shortened, if_pos hshort, autolinkLeaf_mail hmail, if_pos haddress]
      exact ⟨.mail, .mail (isAddress_iff.mp haddress), rfl⟩
  | false =>
      rw [shortened, if_neg (Bool.eq_false_iff.mp hshort), autolinkLeaf_kept hcolon hshort]
      exact ⟨.autolink, .uri huri, rfl⟩

theorem read_shortened (huri : IsUri (scheme ++ ':' :: rest)) (hcolon : ':' ∉ scheme)
    (hplain : opensMarkup (shortened scheme rest) = false) :
    Document.read extensions (alone (bracketed (shortened scheme rest))) =
      autolinkDocument scheme rest := by
  obtain ⟨form, hlinks, hleaf⟩ := exists_links huri hcolon
  rw [Document.read_autolink extensions hlinks hplain, hleaf]
  rfl

/--
An autolink with a scheme that is a whole document is printed as it was written, or without the
scheme if that is the scheme of mail and an address is left. The same canonical document is read
from that if and only if it does not begin as markup does.
-/
theorem autolink_settles (scope : Scope) (compact : Bool)
    (huri : IsUri (scheme ++ ':' :: rest)) (hcolon : ':' ∉ scheme) :
    ∃ canonical : Document,
      (document scope (Document.read extensions
        (alone (bracketed (scheme ++ ':' :: rest))))).value = canonical ∧
      (document scope canonical).value = canonical ∧
      Printer.document compact canonical = alone (bracketed (shortened scheme rest)) ∧
      (Document.read extensions (Printer.document compact canonical) = canonical ↔
        opensMarkup (shortened scheme rest) = false) := by
  refine ⟨autolinkDocument scheme rest, document_autolink extensions scope huri hcolon,
    document_autolinkDocument scope scheme rest, printed_autolinkDocument compact scheme rest, ?_⟩
  rw [printed_autolinkDocument]
  refine ⟨fun hsame => ?_, read_shortened extensions huri hcolon⟩
  refine Bool.eq_false_iff.mpr fun hmarkup => ?_
  obtain ⟨form, hlinks, -⟩ := exists_links huri hcolon
  obtain ⟨html, hlost⟩ := Document.read_markup extensions hlinks hmarkup
  rw [hlost, autolinkDocument] at hsame
  exact Block.noConfusion (List.cons.inj hsame).1

/-- Without its scheme, this link is a processing instruction. -/
example :
    shortened "mailto".toList "?A@b.c".toList = "?A@b.c".toList ∧
      Document.read {} (alone (bracketed "?A@b.c".toList)) =
        [.verbatim (.html "<?A@b.c>\n\n".toList)] := by
  exact ⟨by decide, rfl⟩

end Canonical

end Canonmark
