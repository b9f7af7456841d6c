import ApiTypings.Proofs.Render.Route
import ApiTypings.Proofs.Render.Types
import ApiTypings.Render.Rule

/-!
# What the writers map and make

Whatever its rule, a node is written from the references that `mapped` lists: the writer succeeds
when each of them is mapped and, for a controller, when the routes of its actions are filled, and
the file imports the discovered types that these references name.
-/

namespace ApiTypings.Render

/-- The first rule that applies is that of controllers, then that of enums, then that of the other
value types. -/
theorem rule_eq (node : Node) :
    rule node =
      if node.controller then .controller
      else if node.kind = .enum then .enum
      else if node.kind.isValueType then .struct
      else .model := by
  rw [rule]
  cases node.controller <;> cases node.kind <;> rfl

/-- Controllers are written as such. -/
theorem rule_eq_controller_iff {node : Node} :
    rule node = .controller ↔ node.controller = true := by
  rw [rule]
  cases node.controller <;> cases node.kind <;> decide

namespace Context

/-- The references that the writer of a node maps, each with its member. -/
def mapped (ctx : Context) (node : Node) : List (Reference × Member) :=
  match rule node with
  | .controller => node.actions.flatMap Node.actionReferences
  | .model =>
    (ctx.discoveredBase node).toList.map (·, .base) ++
      node.properties.map fun p => (p.type, .property p.name)
  | .enum | .struct => []

/-- The imports that do not depend on references: a controller needs the contract. -/
def fixedImports (ctx : Context) (node : Node) : List TypeScript.Import :=
  if rule node = .controller then [ctx.importOf contractName [contractName, requestConfigName]]
  else []

variable {ctx : Context} {node : Node}

/-- The base of a node is written when it is discovered. -/
theorem mem_discoveredBase_iff {base : Reference} :
    base ∈ ctx.discoveredBase node ↔
      node.baseType = some base ∧
        ∃ id, base.identity? = some id ∧ ctx.graph.contains id = true := by
  rw [discoveredBase, Option.mem_def, Option.filter_eq_some_iff]
  cases base.identity? with
  | none => simp
  | some id => simp

/-- A controller maps the references of its actions. -/
theorem mapped_of_controller (h : node.controller = true) :
    ctx.mapped node = node.actions.flatMap Node.actionReferences := by
  rw [mapped, rule_eq, if_pos h]

/-- A value type maps nothing. -/
theorem mapped_of_isValueType (h : node.controller = false) (hk : node.kind.isValueType = true) :
    ctx.mapped node = [] := by
  rw [mapped, rule_eq, h]
  by_cases he : node.kind = .enum
  · simp [he]
  · simp [he, hk]

/-- A model maps its base and its properties. -/
theorem mapped_of_model (h : node.controller = false) (hk : node.kind.isValueType = false) :
    ctx.mapped node = (ctx.discoveredBase node).toList.map (·, .base) ++
      node.properties.map fun p => (p.type, .property p.name) := by
  have he : node.kind ≠ .enum := by
    intro he
    rw [he] at hk
    cases hk
  rw [mapped, rule_eq, h]
  simp [he, hk]

/-- Only references of the node are mapped. -/
theorem mem_references_of_mem_mapped {p : Reference × Member}
    (hp : p ∈ ctx.mapped node) : p ∈ node.references := by
  rw [Node.references]
  cases hc : node.controller with
  | true =>
    rw [mapped_of_controller hc] at hp
    exact hp
  | false =>
    cases hk : node.kind.isValueType with
    | true =>
      rw [mapped_of_isValueType hc hk] at hp
      cases hp
    | false =>
      rw [mapped_of_model hc hk] at hp
      rcases List.mem_append.mp hp with hp | hp
      · obtain ⟨base, hbase, rfl⟩ := List.mem_map.mp hp
        obtain ⟨hbase, _⟩ := mem_discoveredBase_iff.mp (Option.mem_toList.mp hbase)
        exact List.mem_append_left _ (List.mem_map_of_mem (Option.mem_toList.mpr hbase))
      · exact List.mem_append_right _ hp

/-- An action is written when its references are mapped and its route is filled. -/
theorem exists_method_iff {action : ActionDef} :
    (∃ m, ctx.method node action = .ok m) ↔
      (∀ p ∈ Node.actionReferences action, ∃ t, ctx.map node p.2 p.1 = .ok t) ∧
        action.FillsRoute node.identity.name := by
  have hparams : (∃ params, action.parameters.mapM (ctx.parameter node action) = .ok params) ↔
      ∀ p ∈ action.parameters,
        ∃ t, ctx.map node (.parameter action.name p.name) p.type = .ok t := by
    rw [exists_ok_mapM]
    simp only [parameter, exists_ok_map]
  have hroute : (∃ made, Route.url (actionPath node.identity.name action)
        (action.parameters.map Argument.ofParameter) = .ok made) ↔
      action.FillsRoute node.identity.name := by
    rw [Route.exists_url_iff, ActionDef.FillsRoute]
    simp only [List.mem_map]
    constructor
    · intro h placeholder hs
      obtain ⟨_, ⟨p, hp, rfl⟩, hname⟩ := h placeholder hs
      exact ⟨p, hp, hname⟩
    · intro h placeholder hs
      obtain ⟨p, hp, hname⟩ := h placeholder hs
      exact ⟨_, ⟨p, hp, rfl⟩, hname⟩
  rw [← hroute, Node.actionReferences, List.forall_mem_cons, List.forall_mem_map, ← hparams, method]
  simp only [exists_ok_bind]
  constructor
  · rintro ⟨result, hresult, params, hps, made, hmade, _⟩
    exact ⟨⟨⟨result, hresult⟩, params, hps⟩, made, mapError_eq_ok_iff.mp hmade⟩
  · rintro ⟨⟨⟨result, hresult⟩, params, hps⟩, made, hmade⟩
    exact ⟨result, hresult, params, hps, made, mapError_eq_ok_iff.mpr hmade, _, rfl⟩

/-- A controller is written when its references are mapped and its routes are filled. -/
theorem exists_writeController_iff :
    (∃ x, ctx.writeController node = .ok x) ↔
      (∀ p ∈ node.actions.flatMap Node.actionReferences, ∃ t, ctx.map node p.2 p.1 = .ok t) ∧
        ∀ action ∈ node.actions, action.FillsRoute node.identity.name := by
  rw [writeController]
  simp only [exists_ok_bind]
  have hmethods : (∃ methods, node.actions.mapM (ctx.method node) = .ok methods) ↔
      (∀ p ∈ node.actions.flatMap Node.actionReferences, ∃ t, ctx.map node p.2 p.1 = .ok t) ∧
        ∀ action ∈ node.actions, action.FillsRoute node.identity.name := by
    rw [exists_ok_mapM, List.forall_mem_flatMap]
    simp only [exists_method_iff]
    constructor
    · intro h
      exact ⟨fun action ha => (h action ha).1, fun action ha => (h action ha).2⟩
    · rintro ⟨hmapped, hroutes⟩ action ha
      exact ⟨hmapped action ha, hroutes action ha⟩
  rw [← hmethods]
  constructor
  · rintro ⟨methods, hok, _⟩
    exact ⟨methods, hok⟩
  · rintro ⟨methods, hok⟩
    exact ⟨methods, hok, _, rfl⟩

/-- A model is written when its base and its properties are mapped. -/
theorem exists_writeModel_iff :
    (∃ x, ctx.writeModel node = .ok x) ↔
      (∀ base ∈ ctx.discoveredBase node, ∃ t, ctx.map node .base base = .ok t) ∧
        ∀ p ∈ node.properties, ∃ t, ctx.map node (.property p.name) p.type = .ok t := by
  rw [writeModel]
  simp only [exists_ok_bind]
  have hproperties : (∃ ps, node.properties.mapM (ctx.property node) = .ok ps) ↔
      ∀ p ∈ node.properties, ∃ t, ctx.map node (.property p.name) p.type = .ok t := by
    rw [exists_ok_mapM]
    simp only [property, exists_ok_map]
  rw [← hproperties, ← exists_ok_optionMapM]
  constructor
  · rintro ⟨extended, hextended, ps, hps, _⟩
    exact ⟨⟨extended, hextended⟩, ps, hps⟩
  · rintro ⟨⟨extended, hextended⟩, ps, hps⟩
    exact ⟨extended, hextended, ps, hps, _, rfl⟩

/-- A node is written when its references are mapped and its routes are filled. -/
theorem exists_render_iff :
    (∃ x, render ctx node = .ok x) ↔
      (∀ p ∈ ctx.mapped node, ∃ t, ctx.map node p.2 p.1 = .ok t) ∧
        (rule node = .controller →
          ∀ action ∈ node.actions, action.FillsRoute node.identity.name) := by
  rw [render, mapped]
  cases rule node with
  | controller =>
    rw [Rule.write, exists_writeController_iff]
    simp only [forall_const]
  | model =>
    rw [Rule.write, exists_writeModel_iff]
    simp only [List.forall_mem_append, List.forall_mem_map, Option.mem_toList,
      Option.mem_def, reduceCtorEq, false_implies, and_true]
  | enum | struct =>
    refine ⟨fun _ => ⟨nofun, nofun⟩, fun _ => ⟨_, rfl⟩⟩

/-- A node whose routes have no segments is written when its references are mapped. -/
theorem exists_render_of_not_mem
    (hmapped : ∀ p ∈ ctx.mapped node, ∃ t, ctx.map node p.2 p.1 = .ok t)
    (hroutes : ∀ action ∈ node.actions,
      '\x7b' ∉ (actionPath node.identity.name action).toList) :
    ∃ x, render ctx node = .ok x :=
  exists_render_iff.mpr
    ⟨hmapped, fun _ action ha => ActionDef.fillsRoute_of_not_mem (hroutes action ha)⟩

/-- Types in a written controller are those of its actions. -/
theorem writes_of_writeController {x : Rendered} (h : ctx.writeController node = .ok x) :
    ∀ d ∈ x.file.declarations, ∀ t ∈ d.types,
      ctx.Writes node (node.actions.flatMap Node.actionReferences) t := by
  rw [writeController] at h
  obtain ⟨methods, hmethods, hx⟩ := exists_of_bind_ok h
  cases hx
  intro d hd t ht
  obtain rfl := List.mem_singleton.mp hd
  obtain ⟨m, hm, ht⟩ := List.mem_flatMap.mp ht
  obtain ⟨action, ha, hmethod⟩ := exists_of_mem_mapM hmethods hm
  refine (writes_of_method hmethod t ht).mono fun p hp => ?_
  exact List.mem_flatMap.mpr ⟨action, ha, hp⟩

/-- Types in a written model are those of its base and its properties. -/
theorem writes_of_writeModel {x : Rendered} (h : ctx.writeModel node = .ok x) :
    ∀ d ∈ x.file.declarations, ∀ t ∈ d.types,
      ctx.Writes node ((ctx.discoveredBase node).toList.map (·, .base) ++
        node.properties.map fun p => (p.type, .property p.name)) t := by
  rw [writeModel] at h
  obtain ⟨extended, hextended, h⟩ := exists_of_bind_ok h
  obtain ⟨properties, hproperties, hx⟩ := exists_of_bind_ok h
  cases hx
  intro d hd t ht
  obtain rfl := List.mem_singleton.mp hd
  simp only [TypeScript.Declaration.types, List.flatMap_nil, List.append_nil] at ht
  rcases List.mem_append.mp ht with ht | ht
  · obtain ⟨base, hbase, ht⟩ := exists_of_mem_optionMapM hextended (Option.mem_toList.mp ht)
    exact .mapped (List.mem_append_left _
      (List.mem_map.mpr ⟨base, Option.mem_toList.mpr hbase, rfl⟩)) ht
  · obtain ⟨property, hproperty, rfl⟩ := List.mem_map.mp ht
    obtain ⟨p, hp, hmapped⟩ := exists_of_mem_mapM hproperties hproperty
    obtain ⟨type, htype, rfl⟩ := exists_of_map_ok hmapped
    exact .mapped (List.mem_append_right _ (List.mem_map.mpr ⟨p, hp, rfl⟩)) htype

/-- Every type that a writer puts into a declaration comes from a mapped reference, but for those
of the contract. -/
theorem writes_of_render {x : Rendered} (h : render ctx node = .ok x) :
    ∀ d ∈ x.file.declarations, ∀ t ∈ d.types, ctx.Writes node (ctx.mapped node) t := by
  rw [render] at h
  rw [mapped]
  cases hrule : rule node with
  | controller =>
    rw [hrule] at h
    exact writes_of_writeController h
  | model =>
    rw [hrule] at h
    exact writes_of_writeModel h
  | enum | struct =>
    rw [hrule] at h
    cases h
    intro d hd t ht
    obtain rfl := List.mem_singleton.mp hd
    cases ht

/-- Whatever the writer, the file declares the type under its name and imports what the mapped
references name. -/
theorem eq_file_of_render {x : Rendered} (h : render ctx node = .ok x) :
    ∃ d : TypeScript.Declaration, d.name = node.identity.declaredName ∧
      d.exported = ctx.exported ∧
      x = ctx.file node.identity (ctx.fixedImports node) d
        (ctx.imported node.identity ((ctx.mapped node).map Prod.fst)) := by
  rw [render] at h
  rw [fixedImports, mapped]
  cases hrule : rule node with
  | controller =>
    rw [hrule, Rule.write, writeController] at h
    obtain ⟨methods, _, hx⟩ := exists_of_bind_ok h
    cases hx
    exact ⟨_, rfl, rfl, rfl⟩
  | model =>
    rw [hrule, Rule.write, writeModel] at h
    obtain ⟨extended, _, h⟩ := exists_of_bind_ok h
    obtain ⟨ps, _, hx⟩ := exists_of_bind_ok h
    cases hx
    have hrefs : ((ctx.discoveredBase node).toList.map (·, Member.base) ++
          node.properties.map fun p => (p.type, Member.property p.name)).map Prod.fst =
        (ctx.discoveredBase node).toList ++ node.properties.map PropertyDef.type := by
      rw [List.map_append, List.map_map, List.map_map]
      exact congrArg (· ++ node.properties.map PropertyDef.type) (List.map_id _)
    rw [hrefs]
    exact ⟨_, rfl, rfl, rfl⟩
  | enum =>
    rw [hrule] at h
    cases h
    exact ⟨_, rfl, rfl, rfl⟩
  | struct =>
    rw [hrule] at h
    cases h
    exact ⟨_, rfl, rfl, rfl⟩

end Context

end ApiTypings.Render
