import ApiTypings.Catalog.Loading
import ApiTypings.Catalog.Table
import ApiTypings.Disk.Tree

/-!
# Histories of a catalog

A history starts from the empty catalog. A step loads another catalog in its place, which changes
nothing if that fails, or merges one into it, which keeps what was inserted before it failed. The
definitions of a step are given as such or read from a document, which may be a file. Both catalogs
and tables of definitions under keys take these steps.
-/

namespace ApiTypings

namespace Catalog

/-- Where the definitions of a step come from. -/
inductive Source where
  | definitions (ds : List Definition)
  | document (text path : String)
  /-- A file on the disk as it is when the step is taken. -/
  | file (disk : Disk) (path : String)

namespace Source

/-- What a fault names when no document is to blame. -/
def memoryPath : String := "<memory>"

/-- The definitions of a source, repetitions included, and the path that a fault names. -/
def read : Source → Except CatalogFault (List Definition × String)
  | definitions ds => .ok (ds, memoryPath)
  | document text path => decode text path
  | file disk path =>
    match ((Disk.fileSystem.readText path).run disk).1 with
    | .error fault => .error ⟨path, .unreadable fault⟩
    | .ok text => decode text path
where
  /-- The definitions of a document. -/
  decode (text path : String) : Except CatalogFault (List Definition × String) :=
    match Document.definitions text with
    | .error fault => .error ⟨path, .document fault⟩
    | .ok ds => .ok (ds, path)

/-- The catalog of a source. -/
def catalog : Source → Except CatalogFault Catalog
  | definitions ds => (ofDefinitions ds).mapError fun id => ⟨memoryPath, .duplicate id⟩
  | document text path => ofDocument text path
  | file disk path => ((load Disk.fileSystem path).run disk).1

/-- The table of a source. -/
def table (s : Source) : Except CatalogFault DefinitionTable :=
  match s.read with
  | .error fault => .error fault
  | .ok (ds, path) =>
    (DefinitionTable.ofDefinitions ds).mapError fun id => ⟨path, .duplicate id⟩

end Source

/-- A step of a history. -/
inductive Step where
  | load (source : Source)
  /-- Merges what comes from a source; a fault of the merge names the path. -/
  | merge (source : Source) (path : String)

/-- The catalog after a step, and the fault that ended the step. -/
def step (c : Catalog) : Step → Catalog × Except CatalogFault Unit
  | .load source =>
    match source.catalog with
    | .error fault => (c, .error fault)
    | .ok loaded => (loaded, .ok ())
  | .merge source path =>
    match source.catalog with
    | .error fault => (c, .error fault)
    | .ok other => c.mergeFrom other path

/-- The catalog after the steps of a history. -/
def after (steps : List Step) : Catalog := steps.foldl (fun c s => (c.step s).1) empty

end Catalog

namespace DefinitionTable

open Catalog (Step)

/-- The table after a step, and the fault that ended the step. -/
def step (t : DefinitionTable) : Step → DefinitionTable × Except CatalogFault Unit
  | .load source =>
    match source.table with
    | .error fault => (t, .error fault)
    | .ok loaded => (loaded, .ok ())
  | .merge source path =>
    match source.table with
    | .error fault => (t, .error fault)
    | .ok other =>
      match t.merge other with
      | (merged, none) => (merged, .ok ())
      | (merged, some id) => (merged, .error ⟨path, .duplicate id⟩)

/-- The table after the steps of a history. -/
def after (steps : List Step) : DefinitionTable := steps.foldl (fun t s => (t.step s).1) {}

end DefinitionTable

end ApiTypings
