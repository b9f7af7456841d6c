import ApiTypings.Proofs.Alike
import ApiTypings.Proofs.Render.Writers

/-!
# Options change the spelling only

Two contexts of one graph map a reference to related type expressions, or fail with the same error,
for every relation that the forms of type expressions and the two ways to write a nullable type
respect. Hence the same nodes are written whatever the options are, with the same imports; and with
the null handling fixed, a module and a global file are made of the same declaration and of imports
of the same names.
-/

namespace ApiTypings.Render

open TypeScript (TypeExpr Declaration)

/-- A relation between the type expressions of two contexts that is kept by everything a mapped
reference is made of. -/
structure Spells (ctx ctx' : Context) (R : TypeExpr → TypeExpr → Prop) : Prop where
  graph : ctx.graph = ctx'.graph
  primitive : ∀ p, R (.primitive p) (.primitive p)
  ref : ∀ name, R (.ref name) (.ref name)
  array : ∀ t t', R t t' → R (.array t) (.array t')
  stringRecord : ∀ t t', R t t' → R (.stringRecord t) (.stringRecord t')
  nullable : ∀ t t', R t t' → R (ctx.nullable t) (ctx'.nullable t')
  ofName : ∀ name ts ts', List.Forall₂ R ts ts' → R (.ofName name ts) (.ofName name ts')

namespace Context

variable {ctx ctx' : Context} {R : TypeExpr → TypeExpr → Prop}

private theorem builtin_alike (h : Spells ctx ctx' R) (shape : BuiltinShape) (hasArguments : Bool)
    {argument argument' : Nat → Except Unmappable TypeExpr}
    (ha : ∀ i, Alike R (argument i) (argument' i)) :
    Alike R (ctx.builtin shape hasArguments argument)
      (ctx'.builtin shape hasArguments argument') := by
  cases shape with
  | number | string | boolean | unknown | void => exact .ok (h.primitive _)
  | date => exact .ok (h.ref _)
  | collection => exact (ha 0).map h.array
  | dictionary => exact (ha 1).map h.stringRecord
  | nullable => exact (ha 0).map h.nullable
  | task =>
    cases hasArguments with
    | true => exact ha 0
    | false => exact .ok (h.primitive _)

/-- A reference is mapped to related type expressions, or not mapped for the same reason. -/
theorem map_alike (h : Spells ctx ctx' R) (node : Node) (member : Member) (r : Reference) :
    Alike R (ctx.map node member r) (ctx'.map node member r) := by
  induction r using Reference.induction with
  | param position =>
    rw [map, map]
    cases node.genericParameters[position]? with
    | none => exact .error _
    | some name => exact .ok (h.ref name)
  | array element ih =>
    rw [map, map]
    exact ih.map h.array
  | nullable inner ih =>
    rw [map, map]
    exact ih.map h.nullable
  | named id args ih =>
    rw [map, map, h.graph, mapAll_eq, mapAll_eq]
    cases ctx'.graph.node? id with
    | some target =>
      by_cases hk : target.kind = .delegate
      · simp only [hk, if_true]
        exact .error _
      · simp only [hk, if_false]
        exact (Alike.mapM ih).map (h.ofName _)
    | none =>
      cases id.builtinShape? with
      | none => exact .error _
      | some shape =>
        refine builtin_alike h shape _ fun i => ?_
        rw [mapAt_eq, mapAt_eq]
        cases hi : args[i]? with
        | none => exact .error _
        | some a => exact ih a (List.mem_of_getElem? hi)

/-! ## Any two contexts of one graph -/

section AnyOptions

variable (hgraph : ctx.graph = ctx'.graph) (node : Node)

include hgraph

private theorem spells_of_graph : Spells ctx ctx' fun _ _ => True where
  graph := hgraph
  primitive := fun _ => trivial
  ref := fun _ => trivial
  array := fun _ _ _ => trivial
  stringRecord := fun _ _ _ => trivial
  nullable := fun _ _ _ => trivial
  ofName := fun _ _ _ _ => trivial

private theorem imported_of_graph (own : Identity) (refs : List Reference) :
    ctx.imported own refs = ctx'.imported own refs := by
  rw [imported, imported, hgraph]

private theorem discoveredBase_of_graph : ctx.discoveredBase node = ctx'.discoveredBase node := by
  rw [discoveredBase, discoveredBase, hgraph]

private theorem method_alike (action : ActionDef) :
    Alike (fun _ _ => True) (ctx.method node action) (ctx'.method node action) := by
  have hmap := map_alike (spells_of_graph hgraph) node
  refine (hmap _ _).bind fun result result' _ => ?_
  have hparams : ∀ p ∈ action.parameters,
      Alike (fun _ _ => True) (ctx.parameter node action p) (ctx'.parameter node action p) :=
    fun p _ => (hmap _ _).map fun _ _ _ => trivial
  refine (Alike.mapM hparams).bind fun params params' _ => ?_
  exact (Alike.of_eq rfl).bind fun made made' _ => .ok trivial

/-- A node is written whatever the options are, or for the same reason not at all, and its file
imports the same types. -/
theorem render_alike :
    Alike (fun x x' => x.identity = x'.identity ∧ x.imports = x'.imports)
      (render ctx node) (render ctx' node) := by
  rw [render, render]
  cases rule node with
  | controller =>
    refine (Alike.mapM fun action _ => method_alike hgraph node action).bind fun _ _ _ => ?_
    refine .ok ⟨rfl, ?_⟩
    exact imported_of_graph hgraph _ _
  | model =>
    rw [Rule.write, Rule.write, writeModel, writeModel, discoveredBase_of_graph hgraph]
    have hmap := map_alike (spells_of_graph hgraph) node
    refine (Alike.optionMapM _ fun base _ => hmap .base base).bind fun _ _ _ => ?_
    have hproperties : ∀ p ∈ node.properties,
        Alike (fun _ _ => True) (ctx.property node p) (ctx'.property node p) :=
      fun p _ => (hmap _ _).map fun _ _ _ => trivial
    refine (Alike.mapM hproperties).bind fun _ _ _ => .ok ⟨rfl, ?_⟩
    exact imported_of_graph hgraph _ _
  | enum | struct => exact .ok ⟨rfl, rfl⟩

end AnyOptions

/-! ## Two contexts with the same null handling -/

/-- Two files of a node, spelled by two contexts: the same declaration, exported as each context
says, and imports of the same names. -/
def Spelled (ctx ctx' : Context) (node : Node) (x x' : Rendered) : Prop :=
  ∃ (d : Declaration) (imports : List Identity),
    x = ctx.file node.identity (ctx.fixedImports node) { d with exported := ctx.exported } imports ∧
    x' = ctx'.file node.identity (ctx'.fixedImports node) { d with exported := ctx'.exported }
      imports

section SameNull

variable (hgraph : ctx.graph = ctx'.graph) (hnull : ctx.strictNull = ctx'.strictNull) (node : Node)

include hgraph hnull

private theorem map_of_strictNull : ctx.map node = ctx'.map node := by
  have hspells : Spells ctx ctx' Eq :=
    { graph := hgraph
      primitive := fun _ => rfl
      ref := fun _ => rfl
      array := fun _ _ => congrArg _
      stringRecord := fun _ _ => congrArg _
      nullable := by
        rintro t _ rfl
        rw [nullable, nullable, hnull]
      ofName := by
        intro name ts ts' h
        rw [List.forall₂_eq_eq_eq] at h
        rw [h] }
  funext member r
  exact (map_alike hspells node member r).eq

private theorem property_of_strictNull : ctx.property node = ctx'.property node := by
  funext p
  rw [property, property, map_of_strictNull hgraph hnull node]

private theorem method_of_strictNull : ctx.method node = ctx'.method node := by
  have hparameter : ∀ action, ctx.parameter node action = ctx'.parameter node action := by
    intro action
    funext p
    rw [parameter, parameter, map_of_strictNull hgraph hnull node]
  funext action
  rw [method, method, map_of_strictNull hgraph hnull node, hparameter]

/-- With the null handling fixed, a node is written as the same declaration with imports of the same
names. -/
theorem render_spelled : Alike (Spelled ctx ctx' node) (render ctx node) (render ctx' node) := by
  rw [render, render]
  cases hrule : rule node with
  | controller =>
    rw [Rule.write, Rule.write, writeController, writeController,
      method_of_strictNull hgraph hnull]
    refine (Alike.of_eq rfl).bind fun methods _ heq => .ok ?_
    subst heq
    refine ⟨{ name := node.identity.declaredName, kind := .classType methods },
      ctx.imported node.identity ((node.actions.flatMap Node.actionReferences).map Prod.fst),
      ?_, ?_⟩
    · rw [fixedImports, if_pos hrule]
    · rw [fixedImports, if_pos hrule, imported_of_graph hgraph]
  | model =>
    rw [Rule.write, Rule.write, writeModel, writeModel, discoveredBase_of_graph hgraph,
      imported_of_graph hgraph, map_of_strictNull hgraph hnull, property_of_strictNull hgraph hnull]
    refine (Alike.of_eq rfl).bind fun extended _ heq => ?_
    subst heq
    refine (Alike.of_eq rfl).bind fun properties _ heq => .ok ?_
    subst heq
    refine ⟨{ name := node.identity.declaredName
              typeParams := node.genericParameters
              kind := .interface extended properties [] },
      ctx'.imported node.identity
        ((ctx'.discoveredBase node).toList ++ node.properties.map PropertyDef.type), ?_, ?_⟩
    · rw [fixedImports, if_neg (by rw [hrule]; decide)]
    · rw [fixedImports, if_neg (by rw [hrule]; decide)]
  | enum =>
    refine .ok ⟨{ name := node.identity.declaredName, kind := .enumeration node.enumMembers }, [],
      ?_, ?_⟩
    · rw [fixedImports, if_neg (by rw [hrule]; decide), writeEnum]
    · rw [fixedImports, if_neg (by rw [hrule]; decide), writeEnum]
  | struct =>
    refine .ok ⟨{ name := node.identity.declaredName
                  typeParams := node.genericParameters
                  kind := .stringWrapper }, [], ?_, ?_⟩
    · rw [fixedImports, if_neg (by rw [hrule]; decide), writeStruct]
    · rw [fixedImports, if_neg (by rw [hrule]; decide), writeStruct]

end SameNull

end Context

end ApiTypings.Render
