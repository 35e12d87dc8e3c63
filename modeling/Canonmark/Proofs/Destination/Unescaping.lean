import Canonmark.Proofs.Destination.PrintedLink

/-!
# Escapes in links are undone

A printed destination and a printed title stand for what was printed once their escapes are
taken, whatever follows them, and they end where they are seen to end: the destination at the
first parenthesis without a partner, the title at the first quote that is not escaped.
-/

namespace Canonmark

open Printer Escape

namespace Printer

theorem unescape_escapeTitle (title behind : Text) :
    unescape (escapeTitle title ++ behind) = title ++ unescape behind := by
  induction title with
  | nil => rfl
  | cons c rest ih =>
      rw [escapeTitle_cons]
      split
      · next hescaped =>
          have hpunctuation : Ascii.isPunctuation c = true := by
            rcases hescaped with rfl | rfl <;> rfl
          simp only [List.cons_append, List.nil_append]
          rw [unescape_escaped hpunctuation, ih]
      · next hplain =>
          rw [List.cons_append, List.cons_append, List.nil_append,
            unescape_cons fun h => hplain (.inl h), ih, List.cons_append]

theorem firstUnescaped?_escapeTitle (title behind : Text) :
    firstUnescaped? (· = '"') (escapeTitle title ++ '"' :: behind)
      = some (escapeTitle title).length := by
  induction title with
  | nil => exact firstUnescaped?_found (by decide) (by decide) behind
  | cons c rest ih =>
      rw [escapeTitle_cons]
      split
      · next hescaped =>
          have hpunctuation : Ascii.isPunctuation c = true := by
            rcases hescaped with rfl | rfl <;> rfl
          simp only [List.cons_append, List.nil_append]
          rw [firstUnescaped?_escaped hpunctuation, ih]
          rfl
      · next hplain =>
          rw [List.cons_append, List.cons_append, List.nil_append,
            firstUnescaped?_cons (fun h => hplain (.inl h))
              (decide_eq_false fun h => hplain (.inr h)), ih]
          rfl

end Printer

/--
What escaping does to links is undone by taking the escapes: of a destination, whatever stands
behind it, so also a parenthesis or a space; of a title between its quotes, the second of which is
the first one that no backslash escapes. Of a coded destination the parenthesis that closes the
link is the first one that is not paired.
-/
theorem unescape_link (destination title : Text) :
    (∀ behind, unescape (escapeDestination destination ++ behind)
      = destination ++ unescape behind) ∧
    (∀ behind, SpacedDestination.closingParen? 0
        (escapeDestination (Percent.encode destination) ++ ')' :: behind)
      = some (escapeDestination (Percent.encode destination)).length) ∧
    ∃ quoted, linkTail destination (some title)
        = "](".toList ++ escapeDestination destination ++ " \"".toList ++ quoted ++ "\")".toList ∧
      unescape quoted = title ∧
      ∀ behind, firstUnescaped? (· = '"') (quoted ++ '"' :: behind) = some quoted.length := by
  refine ⟨unescape_escapeDestination destination,
    (SpacedDestination.Passed.encode destination).closes_behind, escapeTitle title, ?_, ?_,
    firstUnescaped?_escapeTitle title⟩
  · simp [linkTail]
  · simpa [unescape] using unescape_escapeTitle title []

end Canonmark
