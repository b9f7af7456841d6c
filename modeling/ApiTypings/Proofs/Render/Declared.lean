import ApiTypings.Proofs.Render.Writers

/-!
# What a declaration says of its node

A rendered node declares one type, under its own name. The types in the declaration are those of
the contract and what the references of the node are mapped to, and each of these references has
its place. The generic parameters of the node are declared by the writers of models and of value
types; enums and controllers are declared without any.
-/

namespace ApiTypings.Render

open TypeScript

/-- The type parameters that the declaration of a node has. -/
def declaredParameters (node : Node) : List String :=
  match rule node with
  | .struct | .model => node.genericParameters
  | .controller | .enum => []

namespace Context

/-- A declaration has the name of a node, its type parameters, and in its types what the references
of the node are mapped to. -/
structure Declares (ctx : Context) (node : Node) (d : Declaration) : Prop where
  name : d.name = node.identity.declaredName
  typeParams : d.typeParams = declaredParameters node
  written : ∀ t ∈ d.types, ctx.Writes node (ctx.mapped node) t
  mapped : ∀ p ∈ ctx.mapped node, ∃ t ∈ d.types, ctx.map node p.2 p.1 = .ok t

variable {ctx : Context} {node : Node}

/-- Every reference of a signature has its place in the method. -/
theorem exists_type_of_method {action : ActionDef} {m : Method}
    (h : ctx.method node action = .ok m) :
    ∀ p ∈ Node.actionReferences action, ∃ t ∈ m.types, ctx.map node p.2 p.1 = .ok t := by
  rw [method] at h
  obtain ⟨result, hresult, h⟩ := exists_of_bind_ok h
  obtain ⟨params, hparams, h⟩ := exists_of_bind_ok h
  obtain ⟨made, _, h⟩ := exists_of_bind_ok h
  cases h
  intro p hp
  rcases List.mem_cons.mp hp with rfl | hp
  · refine ⟨result, ?_, hresult⟩
    simp [Method.types, Statement.types, Expr.types]
  · obtain ⟨d, hd, rfl⟩ := List.mem_map.mp hp
    obtain ⟨param, hparam, hmapped⟩ := exists_mem_of_mapM hparams hd
    obtain ⟨t, ht, rfl⟩ := exists_of_map_ok hmapped
    refine ⟨t, ?_, ht⟩
    simp only [Method.types, List.mem_append, List.map_append]
    exact .inl (.inl (.inl (.inr (List.mem_map_of_mem hparam))))

/-- A written controller has a type for each reference of its actions. -/
theorem exists_type_of_writeController {x : Rendered} (h : ctx.writeController node = .ok x) :
    ∃ d, x.file.declarations = [d] ∧ d.name = node.identity.declaredName ∧ d.typeParams = [] ∧
      ∀ p ∈ node.actions.flatMap Node.actionReferences,
        ∃ t ∈ d.types, ctx.map node p.2 p.1 = .ok t := by
  rw [writeController] at h
  obtain ⟨methods, hmethods, hx⟩ := exists_of_bind_ok h
  cases hx
  refine ⟨_, rfl, rfl, rfl, fun p hp => ?_⟩
  obtain ⟨action, ha, hp⟩ := List.mem_flatMap.mp hp
  obtain ⟨m, hm, hmethod⟩ := exists_mem_of_mapM hmethods ha
  obtain ⟨t, ht, hmap⟩ := exists_type_of_method hmethod p hp
  exact ⟨t, List.mem_flatMap.mpr ⟨m, hm, ht⟩, hmap⟩

/-- A written model has a type for its base and for each of its properties. -/
theorem exists_type_of_writeModel {x : Rendered} (h : ctx.writeModel node = .ok x) :
    ∃ d, x.file.declarations = [d] ∧ d.name = node.identity.declaredName ∧
      d.typeParams = node.genericParameters ∧
      ∀ p ∈ (ctx.discoveredBase node).toList.map (·, .base) ++
          node.properties.map fun p => (p.type, .property p.name),
        ∃ t ∈ d.types, ctx.map node p.2 p.1 = .ok t := by
  rw [writeModel] at h
  obtain ⟨extended, hextended, h⟩ := exists_of_bind_ok h
  obtain ⟨properties, hproperties, hx⟩ := exists_of_bind_ok h
  cases hx
  refine ⟨_, rfl, rfl, rfl, fun p hp => ?_⟩
  simp only [Declaration.types, List.flatMap_nil, List.append_nil]
  rcases List.mem_append.mp hp with hp | hp
  · obtain ⟨base, hbase, rfl⟩ := List.mem_map.mp hp
    obtain hbase : ctx.discoveredBase node = some base := Option.mem_toList.mp hbase
    rw [hbase, Option.mapM_some] at hextended
    obtain ⟨t, ht, rfl⟩ := exists_of_map_ok hextended
    exact ⟨t, List.mem_append_left _ (List.mem_singleton_self _), ht⟩
  · obtain ⟨property, hproperty, rfl⟩ := List.mem_map.mp hp
    obtain ⟨field, hfield, hmapped⟩ := exists_mem_of_mapM hproperties hproperty
    obtain ⟨t, ht, rfl⟩ := exists_of_map_ok hmapped
    exact ⟨t, List.mem_append_right _ (List.mem_map.mpr ⟨_, hfield, rfl⟩), ht⟩

/-- Whatever the writer, the file of a node holds its declaration. -/
theorem exists_declares_of_render {x : Rendered} (h : render ctx node = .ok x) :
    ∃ d, x.file.declarations = [d] ∧ ctx.Declares node d := by
  obtain ⟨d, hd, hname, hparams, hmapped⟩ : ∃ d, x.file.declarations = [d] ∧
      d.name = node.identity.declaredName ∧ d.typeParams = declaredParameters node ∧
      ∀ p ∈ ctx.mapped node, ∃ t ∈ d.types, ctx.map node p.2 p.1 = .ok t := by
    rw [render] at h
    rw [declaredParameters, mapped]
    cases hrule : rule node with
    | controller =>
      rw [hrule] at h
      exact exists_type_of_writeController h
    | model =>
      rw [hrule] at h
      exact exists_type_of_writeModel h
    | enum | struct =>
      rw [hrule] at h
      cases h
      exact ⟨_, rfl, rfl, rfl, List.forall_mem_nil _⟩
  refine ⟨d, hd, hname, hparams, fun t ht => ?_, hmapped⟩
  exact writes_of_render h d (hd ▸ List.mem_singleton_self d) t ht

end Context

end ApiTypings.Render
