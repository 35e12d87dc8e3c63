import Canonmark.Files.Host
import Canonmark.Reference.CatalogFile

/-!
# Loading catalogs

Catalogs are loaded from files and merged in order.
-/

namespace Canonmark

inductive CatalogLoadError where
  | unreadable (path : Text) (error : IoError)
  | invalid (path : Text) (error : CatalogError)
  deriving DecidableEq, Inhabited, Repr

namespace CatalogLoadError

def message : CatalogLoadError → Text
  | .unreadable path error =>
      "failed to read xref map ".toList ++ path ++ ": ".toList ++ error.message
  | .invalid path _ => "invalid xref map ".toList ++ path

end CatalogLoadError

namespace Catalog

variable {m : Type → Type} [Monad m]

def load (host : Host m) (path : Text) : ExceptT CatalogLoadError m Catalog := do
  match ← host.readFile path with
  | .error error => throw (.unreadable path error)
  | .ok source =>
      match CatalogFile.parse source with
      | .ok catalog => return catalog
      | .error error => throw (.invalid path error)

private def loadInto (host : Host m) (catalog : Catalog) :
    List Text → ExceptT CatalogLoadError m Catalog
  | [] => return catalog
  | path :: rest => do
      let next ← load host path
      loadInto host (catalog.merge next) rest

/-- Loads catalogs into one; the first that cannot be loaded ends it. -/
def loadAll (host : Host m) (paths : List Text) : ExceptT CatalogLoadError m Catalog :=
  loadInto host empty paths

end Catalog

end Canonmark
