import ApiTypings.Proofs.Render.Writers

/-!
# What writing a node reads of the graph

A node is written from its own shape and from the nodes of the identities that its references
name. Two graphs that agree on these identities therefore give it the same file, or the same
failure.
-/

namespace ApiTypings

private theorem Reference.mem_identities_of_identity? {r : Reference} {id : Identity}
    (h : r.identity? = some id) : id ∈ r.identities :=
  List.mem_of_head? (r.identity?_eq_head? id h)

namespace Graph

/-- Two graphs have the same nodes for the identities of a reference. -/
def Agree (g g' : Graph) (r : Reference) : Prop := ∀ id ∈ r.identities, g.node? id = g'.node? id

/-- Graphs that agree on a reference contain the same of what it names. -/
theorem Agree.contains {g g' : Graph} {r : Reference} (h : g.Agree g' r) {id : Identity}
    (hid : id ∈ r.identities) : g.contains id = g'.contains id := by
  rw [Graph.contains, Graph.contains, h id hid]

end Graph

namespace Render.Context

/-- The context with another graph. -/
def withGraph (ctx : Context) (g : Graph) : Context := { ctx with graph := g }

variable {ctx : Context} {g : Graph} {node : Node}

/-- Mapping a reference reads the graph at the identities it names. -/
theorem map_withGraph (member : Member) {r : Reference} (h : g.Agree ctx.graph r) :
    (ctx.withGraph g).map node member r = ctx.map node member r := by
  induction r using Reference.induction with
  | param position => rw [map, map]
  | array element ih => rw [map, map, ih h]
  | nullable inner ih =>
    rw [map, map, ih h]
    rfl
  | named id args ih =>
    rw [Graph.Agree, Reference.identities, List.forall_mem_cons, Reference.identitiesOfAll_eq] at h
    have hargs : ∀ a ∈ args, (ctx.withGraph g).map node member a = ctx.map node member a := by
      intro a ha
      exact ih a ha fun x hx => h.2 x (List.mem_flatMap.mpr ⟨a, ha, hx⟩)
    have hall : mapAll (ctx.withGraph g) node member args = mapAll ctx node member args := by
      rw [mapAll_eq, mapAll_eq]
      exact mapM_congr hargs
    have hat : ∀ i, mapAt (ctx.withGraph g) node member args i = mapAt ctx node member args i := by
      intro i
      rw [mapAt_eq, mapAt_eq]
      cases hi : args[i]? with
      | none => rfl
      | some a => exact congrArg some (hargs a (List.mem_of_getElem? hi))
    have hnode : (ctx.withGraph g).graph.node? id = ctx.graph.node? id := h.1
    rw [map, map, hnode, hall]
    simp only [hat]
    rfl

/-- The imports of a file read the graph at the identities that its references name. -/
theorem imported_withGraph (own : Identity) {refs : List Reference}
    (h : ∀ r ∈ refs, g.Agree ctx.graph r) :
    (ctx.withGraph g).imported own refs = ctx.imported own refs := by
  have hfilter : ∀ id ∈ refs.flatMap Reference.identities,
      (decide (id ≠ own) && g.contains id) = (decide (id ≠ own) && ctx.graph.contains id) := by
    intro id hid
    obtain ⟨r, hr, hid⟩ := List.mem_flatMap.mp hid
    rw [(h r hr).contains hid]
  exact congrArg List.eraseDups (List.filter_congr hfilter)

/-- Whether a base is kept is read from the graph at its outermost identity. -/
theorem discoveredBase_withGraph (h : ∀ base ∈ node.baseType, g.Agree ctx.graph base) :
    (ctx.withGraph g).discoveredBase node = ctx.discoveredBase node := by
  rw [discoveredBase, discoveredBase]
  cases hb : node.baseType with
  | none => rfl
  | some base =>
    have hkept : base.identity?.any (ctx.withGraph g).graph.contains =
        base.identity?.any ctx.graph.contains := by
      cases hid : base.identity? with
      | none => rfl
      | some id => exact (h base hb).contains (Reference.mem_identities_of_identity? hid)
    rw [Option.filter_some, Option.filter_some, hkept]

private theorem method_withGraph {action : ActionDef}
    (h : ∀ p ∈ Node.actionReferences action, g.Agree ctx.graph p.1) :
    (ctx.withGraph g).method node action = ctx.method node action := by
  rw [Node.actionReferences, List.forall_mem_cons, List.forall_mem_map] at h
  have hparams : action.parameters.mapM ((ctx.withGraph g).parameter node action) =
      action.parameters.mapM (ctx.parameter node action) := by
    refine mapM_congr fun p hp => ?_
    rw [parameter, parameter, map_withGraph _ (h.2 p hp)]
  rw [method, method, map_withGraph _ h.1, hparams]

private theorem writeController_withGraph
    (h : ∀ p ∈ node.actions.flatMap Node.actionReferences, g.Agree ctx.graph p.1) :
    (ctx.withGraph g).writeController node = ctx.writeController node := by
  have hmethods : node.actions.mapM ((ctx.withGraph g).method node) =
      node.actions.mapM (ctx.method node) := by
    refine mapM_congr fun action ha => method_withGraph fun p hp => ?_
    exact h p (List.mem_flatMap.mpr ⟨action, ha, hp⟩)
  rw [← List.forall_mem_map] at h
  simp only [writeController, hmethods, imported_withGraph _ h]
  rfl

private theorem writeModel_withGraph (hbase : ∀ base ∈ node.baseType, g.Agree ctx.graph base)
    (hproperties : ∀ p ∈ node.properties, g.Agree ctx.graph p.type) :
    (ctx.withGraph g).writeModel node = ctx.writeModel node := by
  have hkept := discoveredBase_withGraph hbase
  have hof : ∀ base ∈ ctx.discoveredBase node, g.Agree ctx.graph base := fun base hb =>
    hbase base (mem_discoveredBase_iff.mp hb).1
  have hextended : (ctx.discoveredBase node).mapM ((ctx.withGraph g).map node .base) =
      (ctx.discoveredBase node).mapM (ctx.map node .base) := by
    cases hb : ctx.discoveredBase node with
    | none => rfl
    | some base => rw [Option.mapM_some, Option.mapM_some, map_withGraph _ (hof base hb)]
  have hfields : node.properties.mapM ((ctx.withGraph g).property node) =
      node.properties.mapM (ctx.property node) := by
    refine mapM_congr fun p hp => ?_
    rw [property, property, map_withGraph _ (hproperties p hp)]
  have hrefs : ∀ r ∈ (ctx.discoveredBase node).toList ++ node.properties.map PropertyDef.type,
      g.Agree ctx.graph r := by
    rw [List.forall_mem_append, List.forall_mem_map]
    exact ⟨fun r hr => hof r (Option.mem_toList.mp hr), hproperties⟩
  simp only [writeModel, hkept, hextended, hfields, imported_withGraph _ hrefs]
  rfl

/-- Writing a node reads the graph at the identities that its references name. -/
theorem render_withGraph (h : ∀ p ∈ node.references, g.Agree ctx.graph p.1) :
    render (ctx.withGraph g) node = render ctx node := by
  rw [Node.references] at h
  rw [render, render]
  cases hrule : rule node with
  | controller =>
    rw [if_pos (rule_eq_controller_iff.mp hrule)] at h
    exact writeController_withGraph h
  | model =>
    have hc : ¬ node.controller = true := by
      rw [← rule_eq_controller_iff, hrule]
      decide
    rw [if_neg hc, List.forall_mem_append, List.forall_mem_map, List.forall_mem_map] at h
    exact writeModel_withGraph (fun base hb => h.1 base (Option.mem_toList.mpr hb)) h.2
  | enum => rfl
  | struct => rfl

end Render.Context

end ApiTypings
