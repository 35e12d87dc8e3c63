import Canonmark.Canonical.Source
import Canonmark.Proofs.Document.Literal
import Canonmark.Proofs.Text.Split
import Canonmark.Proofs.Wrapped.Blocks

/-!
# Literal text and wrapped destinations

Literal text is read alike whether destinations may hold white space or not, unless one of those
that are wrapped starts in it.
-/

namespace Canonmark.Canonical

open SpacedDestination
open Source (Literal BlockReader.readSource)

def Holds (found : List Span) (literal : Literal) : Prop :=
  ∃ piece ∈ literal.pieces, ∃ span ∈ found, piece.2.start ≤ span.start ∧ span.start < piece.2.stop

theorem literals_read (settings : Settings) (source : Text) (spaced : Bool) :
    (read { settings with spacedDestinations := spaced } source).literals =
      Source.readLiterals (BlockReader.readSource settings.extensions
        ((markedSource (Text.normalizeNewlines source)).side spaced)).literals := by
  generalize hsource : Text.normalizeNewlines source = normal
  have hstrict : (Document.read settings.extensions normal).literals =
      Source.readLiterals (BlockReader.readSource settings.extensions normal).literals :=
    Document.literals_readFrom settings.extensions (Origin.same normal)
  cases spaced with
  | false =>
      rw [Marked.side_false, kept_markedSource, ← hstrict, ← hsource]
      rfl
  | true =>
      by_cases hspans : spans normal = []
      · have htext : (markedSource normal).side true = normal := by
          rw [markedSource, hspans, weave, Marked.side_plain]
        rw [htext, ← hstrict]
        simp [read, hsource, wrap?_eq, hspans]
      · have hread := Document.literals_readFrom settings.extensions (markedSource normal).origin
        rw [Marked.origin, kept_markedSource] at hread
        rw [Marked.side_true, ← hread]
        simp [read, hsource, wrap?_eq, hspans]

/-- Wrapping leaves literal text alone if no wrapped destination starts in any, and if none has an
angle bracket in front of it on its line. -/
theorem literals_spaced_eq (settings : Settings) (source : Text)
    (hangle : NoAngleBefore (Text.normalizeNewlines source)
      (spans (Text.normalizeNewlines source)))
    (hfree : ∀ literal ∈ (BlockReader.readSource settings.extensions
      (Text.normalizeNewlines source)).literals,
        ¬Holds (spans (Text.normalizeNewlines source)) literal) :
    (read { settings with spacedDestinations := true } source).literals =
      (read { settings with spacedDestinations := false } source).literals := by
  rw [literals_read, literals_read]
  have hready := woven_markedSource (Text.carriageReturn_normalizeNewlines source) hangle
  have hkept : (markedSource (Text.normalizeNewlines source)).side false =
      Text.normalizeNewlines source := kept_markedSource _
  have hsame := literals_readSource settings.extensions hready fun literal hliteral => by
    rw [hkept] at hliteral
    rw [openings_markedSource]
    intro piece hpiece p hp hin
    obtain ⟨span, hspan, rfl⟩ := List.mem_map.mp hp
    exact hfree literal hliteral ⟨piece, hpiece, span, hspan, hin⟩
  rw [Source.readLiterals, Source.readLiterals, hsame]

end Canonmark.Canonical
