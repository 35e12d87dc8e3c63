import Canonmark.Document.Printer
import Canonmark.Proofs.Document.Built
import Canonmark.Proofs.Printed.LoneLine
import Canonmark.Proofs.Source.AngleLine

/-!
# Autolinks that stand alone

An autolink on a line of its own is read as a paragraph of one link, unless the line starts a
block of HTML. Only addresses that begin as markup does are lost so: the whole document is HTML
then.
-/

namespace Canonmark

open Source
open Source.Autolink (Links IsAddress IsUri opensMarkup)

namespace Printed

variable {form : LinkForm} {target : Text}

theorem startsParagraph_angle (extensions : Extensions) (text : Text) :
    startsParagraph extensions ('<' :: text) = (HtmlBlock.end? (text ++ ['\n'])).isNone := by
  have hunmarked : isMarked ('<' :: text) = false := by
    simp [isMarked, rule?, headingLevel?, fence?, countWhile]
  have hitem : itemStart? ('<' :: (text ++ ['\n'])) = none := by
    have hnumber := @itemNumber?_none '<' rfl (text ++ ['\n'])
    simp [itemStart?, isBullet, hnumber]
  have hlabels : labelsNothing ('<' :: text) = true := rfl
  have hmetadata : isMetadataFence ('<' :: text) = false := by
    simp [isMetadataFence, countWhile]
  have hvisible : isVisible ('<' :: text) = true := rfl
  simp [startsParagraph, hunmarked, hitem, hlabels, hmetadata, hvisible]

def bracketed (target : Text) : Text := '<' :: (target ++ ['>'])

theorem oneLine_bracketed (h : Links form target) : OneLine (bracketed target) := by
  have hfeed := h.notMem (c := '\n') (by decide) (by decide)
  have hcarriage := h.notMem (c := '\r') (by decide) (by decide)
  exact ⟨by simp [bracketed, hfeed], by simp [bracketed, hcarriage]⟩

theorem startsParagraph_bracketed (extensions : Extensions) (h : Links form target)
    (hplain : opensMarkup target = false) :
    startsParagraph extensions (bracketed target) = true := by
  rw [bracketed, startsParagraph_angle, Option.isNone_iff_eq_none, List.append_assoc]
  cases h with
  | uri huri => exact Autolink.end?_uri huri _
  | mail haddress =>
      have hstarts := Autolink.isSome_end?_address haddress ['\n']
      rwa [hplain, Option.isSome_eq_false_iff, Option.isNone_iff_eq_none] at hstarts

theorem ofSource_bracketed (extensions : Extensions) (h : Links form target)
    (hplain : opensMarkup target = false) :
    SourceRead.ofSource extensions (alone (bracketed target)) =
      ⟨[(.enter .paragraph, .upTo 0 ((bracketed target).length + 1)),
        (.enter (.link false form target []), .upTo 0 (target.length + 2)),
        (.text target, .upTo 1 (target.length + 1)), (.leave, .upTo 0 (target.length + 2)),
        (.leave, .upTo 0 ((bracketed target).length + 1))], []⟩ := by
  have hone := oneLine_bracketed h
  have hsize : (target ++ ['>']).length + 1 = target.length + 2 := by simp
  have hinner : ∀ c ∈ target ++ ['>'], SpacedDestination.isInner c = true := by
    intro c hmem
    have hmem : c ∈ bracketed target := List.mem_cons_of_mem _ hmem
    have hfeed : c ≠ '\n' := fun hsame => hone.1 (hsame ▸ hmem)
    have hcarriage : c ≠ '\r' := fun hsame => hone.2 (hsame ▸ hmem)
    simp [SpacedDestination.isInner, hfeed, hcarriage]
  have hback : (target ++ ['>']).head? ≠ some '\\' := by
    intro hfirst
    obtain ⟨rest, hstarts⟩ := List.head?_eq_some_iff.mp hfirst
    cases h with
    | uri huri => exact (huri.prefixed ['>']).ne_cons (by decide) (by decide) rest hstarts
    | mail haddress =>
        exact (haddress.prefixed ['>']).ne_cons (by decide) (by decide) rest hstarts
  obtain ⟨next, more, htokens, hstarts, hstops⟩ := TokenLine.read_angle extensions hinner hback
    List.getLast?_concat ['\n']
  rw [hsize] at hstops
  have hhere : (aloneContext extensions (bracketed target)).textAt 1 = target ++ '>' :: ['\n'] := by
    simp [aloneContext, InlineContext.textAt, bracketed]
  have htext : (aloneContext extensions (bracketed target)).slice (.upTo 1 (target.length + 1)) =
      target := by
    simp [InlineContext.slice, hhere]
  have hnodes := ofTokens_angle h
    (max (Text.utf8Size (alone (bracketed target))) SourceRead.minBudget) hhere hstarts hstops
  have hread :
      loneTokens extensions (bracketed target) = ⟨.angle, .ofLength 0 1⟩ :: next :: more := htokens
  rw [ofSource_alone hone (startsParagraph_bracketed extensions h hplain), hread, hnodes, htext]
  rfl

end Printed

def Leaf.ofLink (form : LinkForm) (target : Text) : Leaf :=
  match form with
  | .mail => .mail none target
  | _ => Builder.autolink (Printed.bracketed target)

open Printed

theorem splitAll_autolink (written : Text) :
    XrefShortcut.splitAll [.leaf (Builder.autolink written)] =
      [.leaf (Builder.autolink written)] := by
  unfold Builder.autolink
  extract_lets inner
  split
  · split_ifs <;> rfl
  · rfl

theorem Document.read_autolink (extensions : Extensions) {form : LinkForm} {target : Text}
    (h : Links form target) (hplain : opensMarkup target = false) :
    Document.read extensions (alone (bracketed target)) =
      [.paragraph [.leaf (Leaf.ofLink form target)]] := by
  have hslice :
      Span.slice (.upTo 0 (target.length + 2)) (alone (bracketed target)) = bracketed target := by
    have hsize : target.length + 2 = (bracketed target).length := by simp [bracketed]
    rw [hsize]
    exact List.take_left
  rw [Document.read, Document.readFrom]
  simp only [Origin.same, ofSource_bracketed extensions h hplain]
  cases h with
  | uri huri =>
      change [Block.paragraph (XrefShortcut.splitAll [.leaf (Builder.autolink
        (Span.slice (.upTo 0 (target.length + 2)) (alone (bracketed target))))])] = _
      rw [hslice, splitAll_autolink]
      rfl
  | mail haddress =>
      rfl

theorem Document.ofEvents_html (origin : Origin) (span : Span) (pieces : List LocatedPiece) :
    ofEvents origin (SourceRead.enclose .htmlBlock span (SourceRead.pieceEvents pieces)) [] =
      [.verbatim (.html (literalText pieces))] := by
  obtain ⟨fuel, henough⟩ : ∃ fuel,
      2 * (SourceRead.enclose .htmlBlock span (SourceRead.pieceEvents pieces)).length + 1 =
        fuel + 3 :=
    ⟨2 * pieces.length + 2, by simp [SourceRead.enclose, SourceRead.pieceEvents]; omega⟩
  have hliteral := Builder.literalFrom_pieceEvents pieces span []
  rw [ofEvents, henough, SourceRead.enclose]
  simp only [Builder.blocks, List.cons_append, Builder.flush, Builder.block, Builder.literal,
    hliteral]
  rfl

theorem Document.read_markup (extensions : Extensions) {form : LinkForm} {target : Text}
    (h : Links form target) (hmarkup : opensMarkup target = true) :
    ∃ html, Document.read extensions (alone (bracketed target)) = [.verbatim (.html html)] := by
  have hline : target ++ ['>'] ++ '\n' :: ['\n'] = target ++ '>' :: '\n' :: ['\n'] := by simp
  obtain ⟨mark, hstarts⟩ : ∃ mark, HtmlBlock.end? (target ++ '>' :: '\n' :: ['\n']) =
      some (.mark mark) := by
    cases h with
    | uri huri =>
        rw [Autolink.opensMarkup_uri huri] at hmarkup
        exact absurd hmarkup Bool.false_ne_true
    | mail haddress => exact Autolink.end?_markup haddress hmarkup _
  obtain ⟨span, pieces, hsource⟩ := @ofSource_html extensions _ mark (oneLine_bracketed h)
    (hline ▸ hstarts)
  refine ⟨literalText pieces, ?_⟩
  rw [Document.read, Document.readFrom]
  change Document.ofEvents _ (SourceRead.ofSource extensions (alone (bracketed target))).events
    (SourceRead.ofSource extensions (alone (bracketed target))).definitions = _
  rw [bracketed, hsource, Document.ofEvents_html]

end Canonmark
