import ApiTypings.Catalog.Document

/-!
# Loading catalogs

The catalogs of several files become one: each file that is there is read, decoded and merged, in
the order of the paths, and the first fault ends the loading. A path where nothing is contributes
nothing.
-/

namespace ApiTypings.Catalog

variable {m : Type → Type} [Monad m]

/-- Reads and decodes the catalog of a file. -/
def load (fs : FileSystem m) (path : String) : m (Except CatalogFault Catalog) := do
  match ← fs.readText path with
  | .error fault => return .error ⟨path, .unreadable fault⟩
  | .ok text => return ofDocument text path

/-- Adds the catalogs of files to a catalog, one after the other. -/
def loadOnto (fs : FileSystem m) (c : Catalog) : List String → m (Except CatalogFault Catalog)
  | [] => return .ok c
  | path :: paths => do
    if ← fs.isPresent path then
      match ← load fs path with
      | .error fault => return .error fault
      | .ok other =>
        match c.mergeFrom other path with
        | (_, .error fault) => return .error fault
        | (merged, .ok ()) => loadOnto fs merged paths
    else loadOnto fs c paths

/-- The catalog of all files that are there. -/
def loadAll (fs : FileSystem m) (paths : List String) : m (Except CatalogFault Catalog) :=
  loadOnto fs empty paths

end ApiTypings.Catalog
