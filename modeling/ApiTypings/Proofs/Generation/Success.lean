import ApiTypings.Proofs.Generation.Phases
import ApiTypings.Proofs.Naming
import ApiTypings.Proofs.Reference.RoundTrip
import ApiTypings.Proofs.Render.Mapping
import ApiTypings.Proofs.Render.Writers
import Mathlib.Data.List.Nodup

/-!
# When a run succeeds

For a catalog whose references were read from text, a run succeeds exactly when every discovered
type is defined, has a file of its own and contains only references that have a form, and when
the routes of the controllers are filled. A run that fails reports the first of these that does
not hold.
-/

namespace ApiTypings

/-- The references of a definition: its base, its properties and its actions. -/
def Definition.references (d : Definition) : List Reference :=
  d.baseType.toList ++ d.properties.map PropertyDef.type ++
    d.actions.flatMap fun action => action.returns :: action.parameters.map ParameterDef.type

/-- The references that the text of a node contains. -/
inductive Node.Renders (c : Catalog) (n : Node) : Reference → Prop where
  | returned {action} : n.controller = true → action ∈ n.actions → Renders c n action.returns
  | parameter {action p} : n.controller = true → action ∈ n.actions → p ∈ action.parameters →
      Renders c n p.type
  | property {p} : n.controller = false → n.kind.isValueType = false → p ∈ n.properties →
      Renders c n p.type
  /-- A base is kept if its outermost named type is discovered. -/
  | base {r id} : n.controller = false → n.kind.isValueType = false → n.baseType = some r →
      r.identity? = some id → c.Discovers id → Renders c n r

namespace Catalog

/-- Every reference of the catalog was read from a text. -/
def Parsed (c : Catalog) : Prop :=
  ∀ d ∈ c.definitions, ∀ r ∈ d.references, ∃ text, Reference.parse text = .ok r

/-- Every type outside the library that the controllers lead to is defined. -/
def Complete (c : Catalog) : Prop := ∀ id, c.Discovers id → id ∈ c.identities

/-- The files of the discovered types are pairwise distinct, and none is that of the contract. -/
def DistinctFiles (c : Catalog) : Prop :=
  (∀ a b, c.Discovers a → c.Discovers b → a.filename = b.filename → a = b) ∧
    ∀ id, c.Discovers id → id.filename ≠ contractFilename

/-- What the texts of the discovered types contain has a form. -/
def AllMappable (c : Catalog) : Prop :=
  ∀ id n, c.Discovers id → Node.resolve? c id = some n →
    ∀ r, n.Renders c r → r.Mappable c id.arity

/-- The routes of the discovered controllers are filled. -/
def RoutesFilled (c : Catalog) : Prop :=
  ∀ id n, c.Discovers id → Node.resolve? c id = some n → n.controller = true →
    ∀ action ∈ n.actions, action.FillsRoute id.name

end Catalog

variable {c : Catalog}

/-- A catalog with well-formed references is one that was read from text: that which displays
them. -/
theorem Catalog.parsed_of_wellFormed (h : ∀ d ∈ c.definitions, ∀ r ∈ d.references, r.WellFormed) :
    c.Parsed := fun d hd r hr => ⟨r.display, Reference.parse_display (h d hd r hr)⟩

private theorem Definition.mem_references_of_mem_ofDefinition {d : Definition}
    {p : Reference × Member} (hp : p ∈ (Node.ofDefinition d).references) : p.1 ∈ d.references := by
  rw [Node.references] at hp
  rw [references, List.mem_append, List.mem_append]
  by_cases hc : (Node.ofDefinition d).controller = true
  · rw [if_pos hc] at hp
    obtain ⟨action, ha, hp⟩ := List.mem_flatMap.mp hp
    refine Or.inr (List.mem_flatMap.mpr ⟨action, ha, ?_⟩)
    rcases List.mem_cons.mp hp with rfl | hp
    · exact List.mem_cons_self ..
    · obtain ⟨parameter, hparameter, rfl⟩ := List.mem_map.mp hp
      exact List.mem_cons_of_mem _ (List.mem_map_of_mem hparameter)
  · rw [if_neg hc] at hp
    rcases List.mem_append.mp hp with hp | hp
    · obtain ⟨base, hbase, rfl⟩ := List.mem_map.mp hp
      exact Or.inl (Or.inl hbase)
    · obtain ⟨property, hproperty, rfl⟩ := List.mem_map.mp hp
      exact Or.inl (Or.inr (List.mem_map_of_mem (List.mem_filter.mp hproperty).1))

/-- The references of a node of a parsed catalog are well-formed. -/
theorem wellFormed_of_mem_references {id : Identity} {n : Node} (h : c.Parsed)
    (hn : Node.resolve? c id = some n) {p : Reference × Member} (hp : p ∈ n.references) :
    p.1.WellFormed := by
  obtain ⟨d, hd, rfl⟩ := Option.map_eq_some_iff.mp hn
  have hmem : d ∈ c.definitions := List.mem_of_find?_eq_some hd
  obtain ⟨text, htext⟩ := h d hmem p.1 (Definition.mem_references_of_mem_ofDefinition hp)
  exact Reference.wellFormed_of_parse htext

/-- What a discovered node names outside the library is discovered as well. -/
theorem discovers_of_mem_references {id x : Identity} {n : Node} (hid : c.Discovers id)
    (hn : Node.resolve? c id = some n) {p : Reference × Member} (hp : p ∈ n.references)
    (hx : x ∈ p.1.identities) (hs : x.isSystem = false) : c.Discovers x :=
  ⟨.step hid.1 ⟨hid.2, n, hn, p, hp, hx⟩, hs⟩

namespace Render.Context

variable {ctx : Context} {n : Node}

section Mapped

variable (h : discover c c.entryPoints = .ok ctx.graph) {r : Reference}

include h

private theorem renders_of_mem_mapped {member : Member} (hp : (r, member) ∈ ctx.mapped n) :
    n.Renders c r := by
  cases hc : n.controller with
  | true =>
    rw [mapped_of_controller hc] at hp
    obtain ⟨action, ha, hp⟩ := List.mem_flatMap.mp hp
    rcases List.mem_cons.mp hp with hp | hp
    · cases hp
      exact .returned hc ha
    · obtain ⟨p, hparameter, hp⟩ := List.mem_map.mp hp
      cases hp
      exact .parameter hc ha hparameter
  | false =>
    cases hk : n.kind.isValueType with
    | true =>
      rw [mapped_of_isValueType hc hk] at hp
      cases hp
    | false =>
      rw [mapped_of_model hc hk] at hp
      rcases List.mem_append.mp hp with hp | hp
      · obtain ⟨base, hkept, hp⟩ := List.mem_map.mp hp
        cases hp
        obtain ⟨hbase, id, hid, hgraph⟩ := mem_discoveredBase_iff.mp (Option.mem_toList.mp hkept)
        exact .base hc hk hbase hid ((contains_iff_discovers h).mp hgraph)
      · obtain ⟨p, hproperty, hp⟩ := List.mem_map.mp hp
        cases hp
        exact .property hc hk hproperty

private theorem exists_mem_mapped_of_renders (hr : n.Renders c r) :
    ∃ member, (r, member) ∈ ctx.mapped n := by
  cases hr with
  | @returned action hc ha =>
    rw [mapped_of_controller hc]
    exact ⟨_, List.mem_flatMap.mpr ⟨action, ha, List.mem_cons_self ..⟩⟩
  | @parameter action p hc ha hp =>
    rw [mapped_of_controller hc]
    have hsignature : (p.type, .parameter action.name p.name) ∈ Node.actionReferences action :=
      List.mem_cons_of_mem _ (List.mem_map.mpr ⟨p, hp, rfl⟩)
    exact ⟨_, List.mem_flatMap.mpr ⟨action, ha, hsignature⟩⟩
  | @property p hc hk hp =>
    rw [mapped_of_model hc hk]
    exact ⟨_, List.mem_append_right _ (List.mem_map.mpr ⟨p, hp, rfl⟩)⟩
  | @base _ id hc hk hbase hid hd =>
    rw [mapped_of_model hc hk]
    have hkept : r ∈ ctx.discoveredBase n :=
      mem_discoveredBase_iff.mpr ⟨hbase, id, hid, (contains_iff_discovers h).mpr hd⟩
    exact ⟨_, List.mem_append_left _ (List.mem_map.mpr ⟨r, Option.mem_toList.mpr hkept, rfl⟩)⟩

end Mapped

end Render.Context

section Discovered

variable {g : Graph} (h : discover c c.entryPoints = .ok g)

include h

/-- The nodes of the graph are the discovered types with their definitions. -/
theorem mem_nodes_iff {n : Node} :
    n ∈ g.nodes ↔ c.Discovers n.identity ∧ Node.resolve? c n.identity = some n := by
  constructor
  · intro hn
    have hid := (mem_identities_iff_reachable h n.identity).mp (List.mem_map_of_mem hn)
    exact ⟨hid, resolve?_of_mem_nodes h hn⟩
  · rintro ⟨hid, hn⟩
    have hnode := node?_eq_resolve? h ((mem_identities_iff_reachable h n.identity).mpr hid)
    rw [hn] at hnode
    exact List.mem_of_find?_eq_some hnode

/-- The check passes exactly when the types have different files. -/
theorem checkFilenames_ok_iff_distinctFiles :
    checkFilenames g.identities = .ok () ↔ c.DistinctFiles := by
  have hmem := mem_identities_iff_reachable h
  rw [checkFilenames_ok_iff, List.nodup_map_iff_inj_on (nodup_identities h), and_comm]
  constructor
  · rintro ⟨hinj, hcontract⟩
    refine ⟨fun a b ha hb => ?_, fun id hid => ?_⟩
    · exact hinj a ((hmem a).mpr ha) b ((hmem b).mpr hb)
    · exact hcontract id ((hmem id).mpr hid)
  · rintro ⟨hinj, hcontract⟩
    refine ⟨fun a ha b hb => ?_, fun id hid => ?_⟩
    · exact hinj a b ((hmem a).mp ha) ((hmem b).mp hb)
    · exact hcontract id ((hmem id).mp hid)

/-- A node is written when the references in its text can be mapped and its routes are filled. -/
theorem exists_render_iff_renders (hc : c.Parsed) (style : Style) {n : Node} (hn : n ∈ g.nodes) :
    (∃ x, Render.render (Generation.context style g) n = .ok x) ↔
      (∀ r, n.Renders c r → r.Mappable c n.identity.arity) ∧
        (n.controller = true → ∀ action ∈ n.actions, action.FillsRoute n.identity.name) := by
  obtain ⟨hid, hresolve⟩ := (mem_nodes_iff h).mp hn
  have hmap : ∀ p ∈ (Generation.context style g).mapped n,
      (∃ t, (Generation.context style g).map n p.2 p.1 = .ok t) ↔
        p.1.Mappable c n.identity.arity := by
    intro p hp
    have href := Render.Context.mem_references_of_mem_mapped hp
    rw [← Node.length_genericParameters_of_resolve? hresolve]
    exact Render.Context.exists_map_iff h n p.2 (wellFormed_of_mem_references hc hresolve href)
      fun x hx hs => discovers_of_mem_references hid hresolve href hx hs
  rw [Render.Context.exists_render_iff, Render.rule_eq_controller_iff]
  refine and_congr_left fun _ => ⟨?_, ?_⟩
  · intro hall r hr
    obtain ⟨member, hp⟩ : ∃ member, (r, member) ∈ (Generation.context style g).mapped n :=
      Render.Context.exists_mem_mapped_of_renders h hr
    exact (hmap (r, member) hp).mp (hall (r, member) hp)
  · intro hall p hp
    exact (hmap p hp).mpr (hall p.1 (Render.Context.renders_of_mem_mapped h hp))

/-- All nodes are rendered exactly when their references are mapped and their routes are filled. -/
theorem exists_rendered_iff (hc : c.Parsed) (style : Style) :
    (∃ rendered, g.nodes.mapM (Render.render (Generation.context style g)) = .ok rendered) ↔
      c.AllMappable ∧ c.RoutesFilled := by
  rw [exists_ok_mapM]
  constructor
  · intro hall
    have hnode : ∀ id n, c.Discovers id → Node.resolve? c id = some n →
        n.identity = id ∧ n ∈ g.nodes := by
      intro id n hid hn
      have heq := Node.identity_of_resolve? hn
      rw [← heq] at hid hn
      exact ⟨heq, (mem_nodes_iff h).mpr ⟨hid, hn⟩⟩
    refine ⟨fun id n hid hn => ?_, fun id n hid hn => ?_⟩
    · obtain ⟨rfl, hmem⟩ := hnode id n hid hn
      exact ((exists_render_iff_renders h hc style hmem).mp (hall n hmem)).1
    · obtain ⟨rfl, hmem⟩ := hnode id n hid hn
      exact ((exists_render_iff_renders h hc style hmem).mp (hall n hmem)).2
  · rintro ⟨hmappable, hroutes⟩ n hn
    obtain ⟨hid, hresolve⟩ := (mem_nodes_iff h).mp hn
    exact (exists_render_iff_renders h hc style hn).mpr
      ⟨hmappable _ n hid hresolve, hroutes _ n hid hresolve⟩

end Discovered

/-- A graph is discovered exactly from a complete catalog. -/
theorem exists_discover_iff_complete :
    (∃ g, discover c c.entryPoints = .ok g) ↔ c.Complete := by
  rw [exists_discover_iff]
  exact ⟨fun h id hid => h id hid.1 hid.2, fun h id hr hs => h id ⟨hr, hs⟩⟩

namespace Generation

/-- A run on a catalog whose references were read from text succeeds exactly when every discovered
type is defined, the files are distinct, the references can be mapped and the routes are filled.
When it fails, a missing type is reported before a clash of files, and a clash before a reference
or a route that cannot be written. -/
theorem runInto_ok_iff (schedule : Schedule) (style : Style) (c : Catalog) (sink : MemorySink)
    (hc : c.Parsed) :
    ((∃ report, (runInto schedule style c sink).1 = .ok report) ↔
      c.Complete ∧ c.DistinctFiles ∧ c.AllMappable ∧ c.RoutesFilled) ∧
    (¬ c.Complete → ∃ fault, (runInto schedule style c sink).1 = .error (.unresolved fault)) ∧
    (c.Complete → ¬ c.DistinctFiles →
      ∃ fault, (runInto schedule style c sink).1 = .error (.collision fault)) ∧
    (c.Complete → c.DistinctFiles → ¬ (c.AllMappable ∧ c.RoutesFilled) →
      ∃ fault, (runInto schedule style c sink).1 = .error (.unmappable fault)) := by
  rw [runInto_fst, ← exists_discover_iff_complete]
  cases hd : discover c c.entryPoints with
  | error e =>
    rw [run_unresolved hd]
    simp [Except.map]
  | ok g =>
    rw [← checkFilenames_ok_iff_distinctFiles hd, ← exists_rendered_iff hd hc style]
    cases hcheck : checkFilenames g.identities with
    | error e =>
      rw [run_collision hd hcheck]
      simp [Except.map]
    | ok u =>
      simp only [← renderNodes_eq_ok_iff schedule]
      cases hrender : renderNodes schedule style g with
      | error e =>
        rw [run_unmappable hd hcheck hrender]
        simp [Except.map]
      | ok rendered =>
        have hs : Succeeds style c g rendered :=
          ⟨hd, hcheck, (renderNodes_eq_ok_iff schedule).mp hrender⟩
        rw [hs.run_eq schedule]
        simp [Except.map]

end Generation

/-! ## A catalog of two types -/

namespace Shop

/-- A model with one property. -/
def order : Definition where
  ns := "Shop"
  name := "Order"
  kind := .classType
  properties := [{ name := "Total", type := .simple "System.Decimal" }]

/-- A controller with one action, whose route has a segment. -/
def controller : Definition where
  ns := "Shop"
  name := "OrdersController"
  kind := .classType
  controller := true
  actions := [{
    name := "Get"
    route := some "orders/\x7bid\x7d"
    returns := .generic "System.Threading.Tasks.Task" [.simple "Shop.Order"]
    parameters := [{ name := "id", type := .simple "System.Int32" }] }]

/-- The catalog of the two. -/
def catalog : Catalog := ⟨[order, controller], by decide⟩

/-- The graph that the controller leads to. -/
def graph : Graph := ⟨[.ofDefinition controller, .ofDefinition order]⟩

open Discovery in
/-- The graph of the shop. -/
theorem discover_eq_graph : discover catalog catalog.entryPoints = .ok graph := by
  rw [discover, visitEntryPoints_eq_run]
  refine (congrArg _ (run_defined _ List.not_mem_nil (by decide) rfl _)).trans ?_
  refine (congrArg _ (run_system _ (by decide) (by decide) _)).trans ?_
  refine (congrArg _ (run_defined _ (by decide) (by decide) rfl _)).trans ?_
  refine (congrArg _ (run_system _ (by decide) (by decide) _)).trans ?_
  refine (congrArg _ (run_system _ (by decide) (by decide) _)).trans ?_
  exact congrArg _ (run_nil catalog _)

/-- The references of the shop are well-formed. -/
theorem parsed : catalog.Parsed := by
  have horder := Reference.wellFormed_of_isSegment ["Shop".toList, "Order".toList] [] nofun
    (by decide) trivial
  have hdecimal := Reference.wellFormed_of_isSegment ["System".toList, "Decimal".toList] [] nofun
    (by decide) trivial
  have hint := Reference.wellFormed_of_isSegment ["System".toList, "Int32".toList] [] nofun
    (by decide) trivial
  have htask := Reference.wellFormed_of_isSegment
    ["System".toList, "Threading".toList, "Tasks".toList, "Task".toList]
    [.simple "Shop.Order"] nofun (by decide) ⟨horder, trivial⟩
  refine Catalog.parsed_of_wellFormed ?_
  refine List.forall_mem_cons.mpr ⟨?_, List.forall_mem_cons.mpr ⟨?_, nofun⟩⟩
  · exact List.forall_mem_cons.mpr ⟨hdecimal, nofun⟩
  · exact List.forall_mem_cons.mpr ⟨htask, List.forall_mem_cons.mpr ⟨hint, nofun⟩⟩

/-- The routes of the shop's controller are filled. -/
theorem fillsRoute {action : ActionDef} (ha : action ∈ controller.actions) :
    action.FillsRoute controller.name := by
  obtain rfl := List.mem_singleton.mp ha
  intro placeholder hs
  rw [Render.Route.segment_iff_mem_ofPath] at hs
  have hrest : (Render.Route.ofPath []).segments = [] := by
    rw [Render.Route.ofPath]
    rfl
  have hpath :
      (Render.Route.ofPath ("/orders/".toList ++ '{' :: ("id".toList ++ ['}']))).segments =
        [("/orders/".toList, "id".toList)] := by
    rw [Render.Route.ofPath_append (by decide) (by decide), hrest]
  have hid : placeholder ∈ [("/orders/".toList, "id".toList)].map Prod.snd := hpath ▸ hs
  obtain rfl := List.mem_singleton.mp hid
  exact ⟨_, List.mem_singleton_self _, by decide⟩

/-- Each node of the shop is rendered. -/
theorem exists_rendered (style : Style) : ∃ rendered,
    graph.nodes.mapM (Render.render (Generation.context style graph)) = .ok rendered := by
  rw [exists_ok_mapM]
  refine List.forall_mem_cons.mpr ⟨?_, List.forall_mem_cons.mpr ⟨⟨_, rfl⟩, nofun⟩⟩
  refine Render.Context.exists_render_iff.mpr ⟨?_, fun _ _ => fillsRoute⟩
  exact List.forall_mem_cons.mpr ⟨⟨_, rfl⟩, List.forall_mem_cons.mpr ⟨⟨_, rfl⟩, nofun⟩⟩

/-- The catalog of the two types is parsed, and a run on it succeeds. -/
theorem runInto_ok :
    catalog.Parsed ∧ ∃ report, (Generation.runInto .inOrder {} catalog {}).1 = .ok report := by
  have hcomplete := exists_discover_iff_complete.mp ⟨_, discover_eq_graph⟩
  have hdistinct := (checkFilenames_ok_iff_distinctFiles discover_eq_graph).mp rfl
  have hrendered := (exists_rendered_iff discover_eq_graph parsed {}).mp (exists_rendered {})
  exact ⟨parsed,
    (Generation.runInto_ok_iff .inOrder {} catalog {} parsed).1.mpr
      ⟨hcomplete, hdistinct, hrendered⟩⟩

end Shop

end ApiTypings
