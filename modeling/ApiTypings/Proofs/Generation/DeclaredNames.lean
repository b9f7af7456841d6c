import ApiTypings.Proofs.Generation.Imports
import ApiTypings.Proofs.Generation.Output
import ApiTypings.Proofs.Render.Declared

/-!
# Names that the files of a run declare

The file of the contract declares two names, and the file of a discovered type declares its own.
The check of file names keeps the declared names of the discovered types apart from each other and
from that of the contract, after which its file is called. It does not see the options of a
request, which the same file declares.
-/

namespace ApiTypings

open TypeScript (Declaration Import)

namespace Render.Context

variable {ctx : Context}

/-- The imports of a file list no names in the global style. -/
theorem items_of_globals (h : ctx.moduleStyle = .globals) (node : Node) (ids : List Identity) :
    (ctx.fixedImports node ++
        ids.map fun id => ctx.importOf id.declaredName [id.declaredName]).flatMap Import.items =
      [] := by
  have hitems : ∀ stem items, (ctx.importOf stem items).items = [] := fun _ _ => by
    rw [importOf, h]
    rfl
  rw [List.flatMap_eq_nil_iff]
  intro i hi
  rcases List.mem_append.mp hi with hi | hi
  · rw [mem_fixedImports hi, hitems]
  · obtain ⟨id, _, rfl⟩ := List.mem_map.mp hi
    exact hitems _ _

/-- In the style of modules the imports of a file list the names of the types that it imports, after
those of the contract in the file of a controller. -/
theorem items_of_modules (h : ctx.moduleStyle = .modules) (node : Node) (ids : List Identity) :
    (ctx.fixedImports node ++
        ids.map fun id => ctx.importOf id.declaredName [id.declaredName]).flatMap Import.items =
      (if rule node = .controller then [contractName, requestConfigName] else []) ++
        ids.map Identity.declaredName := by
  rw [List.flatMap_append, List.flatMap_map, fixedImports]
  simp only [items_importOf h, ← List.map_eq_flatMap]
  split
  · rw [List.flatMap_singleton, items_importOf h]
  · rfl

end Render.Context

namespace Generation

open Render (Context Rendered)

/-- The names that files declare at their top level, in order. -/
def declaredNames (sources : List Source) : List String :=
  sources.flatMap fun s => s.file.declarations.map Declaration.name

namespace Succeeds

variable {style : Style} {c : Catalog} {g : Graph} {rendered : List Rendered}
  (h : Succeeds style c g rendered)

include h

/-- The contract's file declares the options of a request and the contract, and each discovered type
is declared once. -/
theorem declaredNames_eq : declaredNames (sources style rendered) =
    requestConfigName :: contractName :: g.identities.map Identity.declaredName := by
  have hname : ∀ (n : Node) (x : Rendered), Render.render (context style g) n = .ok x →
      x.file.declarations.map Declaration.name = [n.identity.declaredName] := by
    intro n x hrender
    obtain ⟨d, hd, hdeclares⟩ := Context.exists_declares_of_render hrender
    rw [hd, List.map_singleton, hdeclares.name]
  have hnames := map_eq_map_of_mapM hname h.rendered
  rw [declaredNames, sources, List.flatMap_cons, List.flatMap_map]
  have hrest : rendered.flatMap (fun x => x.file.declarations.map Declaration.name) =
      g.identities.map Identity.declaredName := by
    rw [List.flatMap_def, hnames, Graph.identities, List.map_map]
    rw [← List.flatMap_def]
    exact List.map_eq_flatMap.symm
  exact congrArg (requestConfigName :: contractName :: ·) hrest

/-- The declared names of the discovered types differ from each other and from that of the
contract. -/
theorem nodup_declaredNames : (contractName :: g.identities.map Identity.declaredName).Nodup := by
  have hfiles := h.nodup_filenames
  have hmap : contractFilename :: g.identities.map Identity.filename =
      (contractName :: g.identities.map Identity.declaredName).map (· ++ ".ts") := by
    rw [List.map_cons, List.map_map]
    rfl
  rw [hmap] at hfiles
  exact hfiles.of_map

/-- Types of a discovered graph with one declared name are one type. -/
theorem eq_of_declaredName {a b : Identity} (ha : a ∈ g.identities) (hb : b ∈ g.identities)
    (heq : a.declaredName = b.declaredName) : a = b :=
  List.inj_on_of_nodup_map (List.nodup_cons.mp h.nodup_declaredNames).2 ha hb heq

/-- A file whose imports are not called like the options of a request imports no name twice. -/
theorem nodup_imported_names {n : Node} {x : Rendered}
    (hrender : Render.render (context style g) n = .ok x)
    (hconfig : ∀ id ∈ x.imports, id.declaredName ≠ requestConfigName) :
    (x.file.imports.flatMap Import.items).Nodup := by
  obtain ⟨_, _, _, rfl⟩ := Context.eq_file_of_render hrender
  rw [Context.imports_file]
  generalize hids : (context style g).imported n.identity
    (((context style g).mapped n).map Prod.fst) = ids at hconfig ⊢
  have hgraph : ∀ id ∈ ids, id ∈ g.identities := by
    intro id hid
    rw [← hids] at hid
    exact Graph.contains_iff.mp (Context.mem_imported_iff.mp hid).2.2
  cases hstyle : style.moduleStyle with
  | globals =>
    rw [Context.items_of_globals (show (context style g).moduleStyle = _ from hstyle)]
    exact List.nodup_nil
  | modules =>
    rw [Context.items_of_modules (show (context style g).moduleStyle = _ from hstyle)]
    have hnodup : ids.Nodup := hids ▸ Context.nodup_eraseDups _
    have hnames : (ids.map Identity.declaredName).Nodup :=
      hnodup.map_on fun a ha b hb heq => h.eq_of_declaredName (hgraph a ha) (hgraph b hb) heq
    have hcontract : contractName ∉ ids.map Identity.declaredName := by
      intro hmem
      have hsub := List.map_subset Identity.declaredName hgraph
      exact (List.nodup_cons.mp h.nodup_declaredNames).1 (hsub hmem)
    have hrequest : requestConfigName ∉ ids.map Identity.declaredName := by
      intro hmem
      obtain ⟨id, hid, hname⟩ := List.mem_map.mp hmem
      exact hconfig id hid hname
    split
    · exact List.nodup_append'.mpr ⟨by decide, hnames,
        List.disjoint_cons_left.mpr ⟨hcontract, List.singleton_disjoint.mpr hrequest⟩⟩
    · exact hnames

end Succeeds

/-- In the files of a run the declared names are those of the contract and of the discovered types,
and the latter differ from each other and from the contract. They are all distinct exactly when no
discovered type is declared under the name of the options of a request. A file that imports no such
type imports no name twice. -/
theorem nodup_declaredNames_iff {schedule : Schedule} {style : Style} {c : Catalog}
    {report : Report} {files : List Artifact} (h : run schedule style c = .ok (report, files)) :
    ∃ g rendered, Succeeds style c g rendered ∧
      files = (sources style rendered).map (Source.artifact style) ∧
      declaredNames (sources style rendered) =
        requestConfigName :: contractName :: g.identities.map Identity.declaredName ∧
      (contractName :: g.identities.map Identity.declaredName).Nodup ∧
      ((declaredNames (sources style rendered)).Nodup ↔
        ∀ id, c.Discovers id → id.declaredName ≠ requestConfigName) ∧
      ∀ x ∈ rendered, (∀ id ∈ x.imports, id.declaredName ≠ requestConfigName) →
        (x.file.imports.flatMap Import.items).Nodup := by
  obtain ⟨g, rendered, hs, rfl⟩ := succeeds_of_run h
  refine ⟨g, rendered, hs, (map_artifact_sources style rendered).symm, hs.declaredNames_eq,
    hs.nodup_declaredNames, ?_, fun x hx hconfig => ?_⟩
  · have hne : requestConfigName ≠ contractName := by decide
    have hids : ∀ id, id ∈ g.identities ↔ c.Discovers id :=
      mem_identities_iff_reachable hs.discovered
    rw [hs.declaredNames_eq, List.nodup_cons, and_iff_left hs.nodup_declaredNames, List.mem_cons,
      not_or, and_iff_right hne, List.mem_map]
    simp only [not_exists, not_and, hids]
  · obtain ⟨n, _, hrender⟩ := exists_of_mem_mapM hs.rendered hx
    exact hs.nodup_imported_names hrender hconfig

end Generation

namespace Shop

open Generation (run Succeeds sources declaredNames)

/-- The run on the catalog of two types succeeds, and no two of its declarations share a name. -/
theorem nodup_declaredNames_catalog : ∃ report files,
    run .inOrder {} catalog = .ok (report, files) ∧
    ∃ g rendered, Succeeds {} catalog g rendered ∧ (declaredNames (sources {} rendered)).Nodup := by
  obtain ⟨rendered, hrendered⟩ := exists_rendered {}
  have hs : Succeeds {} catalog graph rendered := ⟨discover_eq_graph, rfl, hrendered⟩
  have hrun := hs.run_eq .inOrder
  obtain ⟨g, rendered', hs', _, _, _, hiff, _⟩ := Generation.nodup_declaredNames_iff hrun
  refine ⟨_, _, hrun, g, rendered', hs', hiff.mpr fun id hid => ?_⟩
  have hnames : ∀ x ∈ graph.identities, x.declaredName ≠ requestConfigName := by decide
  exact hnames id ((mem_identities_iff_reachable discover_eq_graph id).mpr hid)

/-- A type called like the options of a request. -/
def requestConfig : Definition where
  ns := "Shop"
  name := "RequestConfig"
  kind := .classType

/-- A controller that returns it. -/
def settingsController : Definition where
  ns := "Shop"
  name := "SettingsController"
  kind := .classType
  controller := true
  actions := [{ name := "Get", returns := .simple "Shop.RequestConfig" }]

/-- The catalog of the two. -/
def settings : Catalog := ⟨[settingsController, requestConfig], by decide⟩

/-- The graph that the controller leads to. -/
def settingsGraph : Graph := ⟨[.ofDefinition settingsController, .ofDefinition requestConfig]⟩

open Discovery in
private theorem discover_eq_settingsGraph :
    discover settings settings.entryPoints = .ok settingsGraph := by
  rw [discover, visitEntryPoints_eq_run]
  refine (congrArg _ (run_defined _ List.not_mem_nil (by decide) rfl _)).trans ?_
  refine (congrArg _ (run_defined _ (by decide) (by decide) rfl _)).trans ?_
  exact congrArg _ (run_nil settings _)

private theorem exists_succeeds_settings (style : Style) :
    ∃ rendered, Succeeds style settings settingsGraph rendered := by
  refine Generation.exists_succeeds discover_eq_settingsGraph rfl ?_
  refine List.forall_mem_cons.mpr ⟨?_, List.forall_mem_cons.mpr ⟨⟨_, rfl⟩, nofun⟩⟩
  refine Render.Context.exists_render_of_not_mem ?_ (by decide)
  exact List.forall_mem_cons.mpr ⟨⟨_, rfl⟩, nofun⟩

/-- Under any schedule the run on the settings succeeds, although it declares a name twice and the
controller imports that name from two files. -/
theorem not_nodup_declaredNames_settings : ∃ report files,
    (∀ schedule, run schedule {} settings = .ok (report, files)) ∧ ∃ rendered,
      Succeeds {} settings settingsGraph rendered ∧
      files = (sources {} rendered).map (Source.artifact {}) ∧
      ¬ (declaredNames (sources {} rendered)).Nodup ∧
      ∃ x ∈ rendered, x.identity = settingsController.identity ∧
        ¬ (x.file.imports.flatMap Import.items).Nodup := by
  obtain ⟨rendered, hs⟩ := exists_succeeds_settings {}
  refine ⟨_, _, hs.run_eq, rendered, hs,
    (Generation.map_artifact_sources _ _).symm, ?_, ?_⟩
  · rw [hs.declaredNames_eq]
    decide
  · obtain ⟨y, hy, hrender⟩ := exists_mem_of_mapM hs.rendered (List.mem_cons_self ..)
    obtain ⟨_, _, _, rfl⟩ := Render.Context.eq_file_of_render hrender
    refine ⟨_, hy, rfl, ?_⟩
    rw [Render.Context.imports_file]
    decide

end Shop

end ApiTypings
