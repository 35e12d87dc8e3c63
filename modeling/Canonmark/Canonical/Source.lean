import Canonmark.Canonical.Document
import Canonmark.Destination.Spaced
import Canonmark.Document.Builder
import Canonmark.Document.Printer
import Canonmark.Settings

/-!
# Canonical sources

A source is read, made canonical and printed again. Nothing can fail: what is not understood is
kept as it is written.
-/

namespace Canonmark.Canonical

def read (settings : Settings) (source : Text) : Document :=
  let source := Text.normalizeNewlines source
  match if settings.spacedDestinations then SpacedDestination.wrap? source else none with
  | some wrapped =>
      Document.readFrom settings.extensions ⟨wrapped.text, source, wrapped.inserted⟩
  | none => Document.read settings.extensions source

def source (settings : Settings) (scope : Scope) (source : Text) : Asked Text := do
  let canonical ← document scope (read settings source)
  return Printer.document settings.compactHeadings canonical

end Canonmark.Canonical
