import ApiTypings.Proofs.Discovery.Extension
import ApiTypings.Proofs.Generation.Success
import ApiTypings.Proofs.Render.Locality

/-!
# Further definitions keep the files

When a catalog grows, a run goes the same way as long as it starts from the same controllers, and
further controllers only add files behind those that are there. A type is written from what its
references lead to, and all of that was discovered before.
-/

namespace ApiTypings

open Render (Context)

namespace Catalog

/-- The controllers of a catalog that is merged in come after the others. -/
theorem entryPoints_of_append {a b merged : Catalog}
    (h : merged.definitions = a.definitions ++ b.definitions) :
    merged.entryPoints = a.entryPoints ++ b.entryPoints := by
  rw [entryPoints, h, List.filter_append, List.map_append]
  rfl

/-- Without controllers there are no entry points. -/
theorem entryPoints_eq_nil {c : Catalog} (h : ∀ d ∈ c.definitions, d.controller = false) :
    c.entryPoints = [] := by
  rw [entryPoints, List.map_eq_nil_iff, List.filter_eq_nil_iff]
  intro d hd
  rw [h d hd]
  exact Bool.false_ne_true

end Catalog

section Grown

variable {c c' : Catalog} (hsub : c.definitions ⊆ c'.definitions) {g g' : Graph}
  (h : discover c c.entryPoints = .ok g) (h' : discover c' c'.entryPoints = .ok g')
  (hnodes : g.nodes <+: g'.nodes)

include hsub h h' hnodes

/-- The larger graph has the same nodes for everything that a node of the smaller one refers to. -/
theorem agree_of_mem_nodes {n : Node} (hn : n ∈ g.nodes) {p : Reference × Member}
    (hp : p ∈ n.references) : g'.Agree g p.1 := by
  intro id hid
  cases hs : id.isSystem with
  | true => rw [node?_of_isSystem h hs, node?_of_isSystem h' hs]
  | false =>
    obtain ⟨hdiscovered, hresolve⟩ := (mem_nodes_iff h).mp hn
    have hmem := (mem_identities_iff_reachable h id).mpr
      (discovers_of_mem_references hdiscovered hresolve hp hid hs)
    have hmem' : id ∈ g'.identities := (hnodes.map Node.identity).subset hmem
    obtain ⟨x, hx⟩ := Option.isSome_iff_exists.mp (Graph.contains_iff.mpr hmem)
    rw [node?_eq_resolve? h hmem] at hx
    rw [node?_eq_resolve? h hmem, node?_eq_resolve? h' hmem', hx,
      Node.resolve?_of_subset hsub hx]

/-- A node of the smaller graph is written the same in the larger one. -/
theorem render_of_mem_nodes (style : Style) {n : Node} (hn : n ∈ g.nodes) :
    Render.render (Generation.context style g') n =
      Render.render (Generation.context style g) n := by
  have hsame : Render.render ((Generation.context style g).withGraph g') n = _ :=
    Context.render_withGraph fun _ hp => agree_of_mem_nodes hsub h h' hnodes hn hp
  exact hsame

end Grown

namespace Generation

variable {style : Style} {c c' : Catalog}

/-- What was rendered of the smaller catalog is rendered first of the larger one. -/
theorem Succeeds.rendered_prefix {g g' : Graph} {rendered rendered' : List Render.Rendered}
    (h : Succeeds style c g rendered) (h' : Succeeds style c' g' rendered')
    (hsub : c.definitions ⊆ c'.definitions) (hnodes : g.nodes <+: g'.nodes) :
    rendered <+: rendered' := by
  obtain ⟨added, hadded⟩ := hnodes
  have hrendered := h'.rendered
  rw [← hadded] at hrendered
  obtain ⟨first, rest, hfirst, _, rfl⟩ := exists_of_mapM_append_ok hrendered
  have hsame : g.nodes.mapM (Render.render (context style g')) =
      g.nodes.mapM (Render.render (context style g)) :=
    mapM_congr fun n hn => render_of_mem_nodes hsub h.discovered h'.discovered ⟨added, hadded⟩
      style hn
  rw [hsame, h.rendered] at hfirst
  cases hfirst
  exact List.prefix_append ..

/-- With the same controllers, further definitions do not change the run: its report, its files. -/
theorem run_of_subset {schedule : Schedule} (hsub : c.definitions ⊆ c'.definitions)
    (hentries : c'.entryPoints = c.entryPoints) {result : Report × List Artifact}
    (h : run schedule style c = .ok result) (schedule' : Schedule) :
    run schedule' style c' = .ok result := by
  obtain ⟨report, files⟩ := result
  obtain ⟨g, rendered, hs, rfl⟩ := succeeds_of_run h
  have hdiscover : discover c' c'.entryPoints = .ok g := by
    rw [hentries]
    exact discover_of_subset hsub hs.discovered
  have hs' : Succeeds style c' g rendered := ⟨hdiscover, hs.checked, hs.rendered⟩
  rw [hs'.run_eq, hentries]
  rw [hs.run_eq] at h
  exact h

/-- Merging further definitions into a catalog keeps its files, under any schedules. If both runs
succeed, the files of the catalog come first, unchanged, among those of the merged one. If nothing
that is merged in is a controller, the merged catalog gives exactly the same run. -/
theorem run_merge_stable (style : Style) (a b : Catalog)
    (hab : ∀ id ∈ a.identities, id ∉ b.identities) :
    ∃ merged, a.merge b = (merged, none) ∧
      (∀ schedule schedule' report files report' files',
        run schedule style a = .ok (report, files) →
        run schedule' style merged = .ok (report', files') → files <+: files') ∧
      ((∀ d ∈ b.definitions, d.controller = false) → ∀ schedule schedule' result,
        run schedule style a = .ok result → run schedule' style merged = .ok result) := by
  obtain ⟨merged, hmerged⟩ := Catalog.exists_merge hab
  have happend := Catalog.merge_eq_none_iff.mp hmerged
  have hsub : a.definitions ⊆ merged.definitions := by
    rw [happend]
    exact List.subset_append_left ..
  have hentries := Catalog.entryPoints_of_append happend
  refine ⟨merged, hmerged, ?_, ?_⟩
  · intro schedule schedule' report files report' files' ha hmergedRun
    obtain ⟨g, rendered, hs, rfl⟩ := succeeds_of_run ha
    obtain ⟨g', rendered', hs', rfl⟩ := succeeds_of_run hmergedRun
    have hdiscover := hs'.discovered
    rw [hentries] at hdiscover
    have hnodes := nodes_prefix_of_discover hsub hs.discovered hdiscover
    have hrendered := hs.rendered_prefix hs' hsub hnodes
    exact (List.prefix_cons_inj _).mpr (hrendered.map (artifact style))
  · intro hb schedule schedule' result ha
    rw [Catalog.entryPoints_eq_nil hb, List.append_nil] at hentries
    exact run_of_subset hsub hentries ha schedule'

end Generation

namespace Shop

/-- A type that no controller leads to and whose base is not defined. -/
def archive : Catalog := ⟨[{
  ns := "Shop"
  name := "Archive"
  kind := .classType
  baseType := some (.simple "Shop.Ledger") }], by decide⟩

/-- A second controller, without actions. -/
def status : Definition where
  ns := "Shop"
  name := "StatusController"
  kind := .classType
  controller := true

/-- The catalog of that controller alone. -/
def statusPart : Catalog := ⟨[status], by decide⟩

/-- The catalog of the three types that the two controllers lead to. -/
def statusCatalog : Catalog := ⟨[order, controller, status], by decide⟩

/-- The graph that the two controllers lead to. -/
def statusGraph : Graph := ⟨[.ofDefinition controller, .ofDefinition order, .ofDefinition status]⟩

open Discovery in
/-- The graph of the shop with its statuses. -/
theorem discover_eq_statusGraph :
    discover statusCatalog statusCatalog.entryPoints = .ok statusGraph := by
  rw [discover, visitEntryPoints_eq_run]
  refine (congrArg _ (run_defined _ List.not_mem_nil (by decide) rfl _)).trans ?_
  refine (congrArg _ (run_system _ (by decide) (by decide) _)).trans ?_
  refine (congrArg _ (run_defined _ (by decide) (by decide) rfl _)).trans ?_
  refine (congrArg _ (run_system _ (by decide) (by decide) _)).trans ?_
  refine (congrArg _ (run_system _ (by decide) (by decide) _)).trans ?_
  refine (congrArg _ (run_defined _ (by decide) (by decide) rfl _)).trans ?_
  exact congrArg _ (run_nil statusCatalog _)

/-- Each node of the shop with its statuses is rendered. -/
theorem exists_statusRendered (style : Style) : ∃ rendered,
    statusGraph.nodes.mapM (Render.render (Generation.context style statusGraph)) =
      .ok rendered := by
  rw [exists_ok_mapM]
  refine List.forall_mem_cons.mpr ⟨?_, List.forall_mem_cons.mpr ⟨⟨_, rfl⟩,
    List.forall_mem_cons.mpr ⟨⟨_, rfl⟩, nofun⟩⟩⟩
  refine Render.Context.exists_render_iff.mpr ⟨?_, fun _ _ => fillsRoute⟩
  exact List.forall_mem_cons.mpr ⟨⟨_, rfl⟩, List.forall_mem_cons.mpr ⟨⟨_, rfl⟩, nofun⟩⟩

/-- Merging in a type that is not reached keeps the run on the catalog of two types, and merging in
a second controller keeps its files in front. -/
theorem run_merge_catalog :
    (∀ id ∈ catalog.identities, id ∉ archive.identities) ∧
    (∃ merged, catalog.merge archive = (merged, none) ∧
      ∃ result, Generation.run .inOrder {} catalog = .ok result ∧
        Generation.run .inOrder {} merged = .ok result) ∧
    (∀ id ∈ catalog.identities, id ∉ statusPart.identities) ∧
    ∃ report files report' files', Generation.run .inOrder {} catalog = .ok (report, files) ∧
      Generation.run .inOrder {} statusCatalog = .ok (report', files') ∧ files <+: files' := by
  have harchive : ∀ id ∈ catalog.identities, id ∉ archive.identities := by decide
  have hstatus : ∀ id ∈ catalog.identities, id ∉ statusPart.identities := by decide
  obtain ⟨rendered, hrendered⟩ := exists_rendered {}
  have hs : Generation.Succeeds {} catalog graph rendered := ⟨discover_eq_graph, rfl, hrendered⟩
  have hrun := hs.run_eq .inOrder
  obtain ⟨rendered', hrendered'⟩ := exists_statusRendered {}
  have hs' : Generation.Succeeds {} statusCatalog statusGraph rendered' :=
    ⟨discover_eq_statusGraph, rfl, hrendered'⟩
  have hrun' := hs'.run_eq .inOrder
  refine ⟨harchive, ?_, hstatus, ?_⟩
  · obtain ⟨merged, hmerged, _, hsame⟩ := Generation.run_merge_stable {} catalog archive harchive
    exact ⟨merged, hmerged, _, hrun, hsame (by simp [archive]) _ _ _ hrun⟩
  · have hcatalog : catalog.merge statusPart = (statusCatalog, none) :=
      Catalog.merge_eq_none_iff.mpr rfl
    obtain ⟨merged, hmerged, hprefix, _⟩ := Generation.run_merge_stable {} catalog _ hstatus
    rw [hcatalog] at hmerged
    cases hmerged
    exact ⟨_, _, _, _, hrun, hrun', hprefix _ _ _ _ _ _ hrun hrun'⟩

end Shop

end ApiTypings
