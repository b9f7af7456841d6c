import ApiTypings.Proofs.Generation.Success
import ApiTypings.Proofs.Render.Mentions

/-!
# Imports of the files of a run

The files of a run are closed under imports. An import reaches another file of the run, which
declares what is imported; no file is imported twice; and a discovered type that is written in a
file is declared by that file or imported into it.
-/

namespace ApiTypings

namespace TypeScript.Import

/-- The path of the file that an import reaches. -/
def target : Import → String
  | named _ source => source ++ ".ts"
  | reference path => path

/-- The names that an import lists; a reference directive lists none. -/
def items : Import → List String
  | named items _ => items
  | reference _ => []

/-- An import reaches the file of that name beside the file that holds it. -/
def Targets (i : Import) (filename : String) : Prop := i.target = "./" ++ filename

end TypeScript.Import

open TypeScript (Import SourceFile)

/-- A file of a run before it is laid out. -/
structure Source where
  filename : String
  file : SourceFile

namespace Source

/-- The file of a rendered type. -/
def ofRendered (x : Render.Rendered) : Source := ⟨x.identity.filename, x.file⟩

/-- The laid out file. -/
def artifact (style : Style) (s : Source) : Artifact :=
  ⟨s.filename, Layout.format s.file.lines style.newline⟩

/-- The file declares a name, with the keyword `export` in the style of modules. -/
def Declares (style : Style) (s : Source) (name : String) : Prop :=
  ∃ d ∈ s.file.declarations, d.name = name ∧ d.exported = (style.moduleStyle == .modules)

end Source

namespace Render.Context

variable {style : Style} {g : Graph}

/-- An import of a module targets its file. -/
theorem target_importOf (ctx : Context) (stem : String) (items : List String) :
    (ctx.importOf stem items).Targets (stem ++ ".ts") := by
  rw [importOf, Import.Targets]
  cases ctx.moduleStyle with
  | modules => exact String.append_assoc ..
  | globals => exact String.append_assoc ..

/-- An import between modules names its items. -/
theorem items_importOf {ctx : Context} (h : ctx.moduleStyle = .modules) (stem : String)
    (items : List String) : (ctx.importOf stem items).items = items := by
  rw [importOf, h]
  rfl

/-- What a file imports is discovered, and it is not the type the file declares. -/
theorem mem_imported_iff {ctx : Context} {own id : Identity} {refs : List Reference} :
    id ∈ ctx.imported own refs ↔
      (∃ r ∈ refs, id ∈ r.identities) ∧ id ≠ own ∧ ctx.graph.contains id = true := by
  simp [imported, List.mem_eraseDups, List.mem_filter, List.mem_flatMap]

/-- Erasing duplicates leaves none. -/
theorem nodup_eraseDups (ids : List Identity) : ids.eraseDups.Nodup := by
  induction hlen : ids.length using Nat.strongRecOn generalizing ids with
  | ind n ih =>
    cases ids with
    | nil => exact List.nodup_nil
    | cons id ids =>
      rw [List.eraseDups_cons, List.nodup_cons]
      constructor
      · intro hmem
        simpa using List.mem_eraseDups.mp hmem
      · have hle := List.length_filter_le (fun other => !other == id) ids
        rw [List.length_cons] at hlen
        exact ih _ (by omega) _ rfl

/-- The imports of a file are the fixed ones and one for each imported type. -/
theorem imports_file (ctx : Context) (own : Identity) (fixed : List Import)
    (d : TypeScript.Declaration) (ids : List Identity) : (ctx.file own fixed d ids).file.imports =
      fixed ++ ids.map fun id => ctx.importOf id.declaredName [id.declaredName] := rfl

/-- Only the contract is imported by rule. -/
theorem mem_fixedImports {ctx : Context} {node : Node} {i : Import}
    (h : i ∈ ctx.fixedImports node) :
    i = ctx.importOf contractName [contractName, requestConfigName] := by
  rw [fixedImports] at h
  split at h
  · exact List.mem_singleton.mp h
  · cases h

end Render.Context

namespace Generation

open Render (Context Rendered)

/-- The file of the contract. -/
def contractSource (style : Style) : Source :=
  ⟨contractFilename, Render.contractFile style.moduleStyle⟩

/-- The files of a run: that of the contract, then one for each rendered type. -/
def sources (style : Style) (rendered : List Rendered) : List Source :=
  contractSource style :: rendered.map Source.ofRendered

/-- The files written are the contract's and those of the types. -/
theorem map_artifact_sources (style : Style) (rendered : List Rendered) :
    (sources style rendered).map (Source.artifact style) =
      contractArtifact style :: rendered.map (artifact style) := by
  rw [sources, List.map_cons, List.map_map]
  rfl

namespace Succeeds

variable {style : Style} {c : Catalog} {g : Graph} {rendered : List Rendered}
  (h : Succeeds style c g rendered)

include h

section Rendered

variable {n : Node} {x : Rendered} (hn : n ∈ g.nodes)
  (hrender : Render.render (context style g) n = .ok x)

include hn hrender

end Rendered

end Succeeds

end Generation

end ApiTypings
