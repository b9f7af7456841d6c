import ApiTypings.Proofs.Generation.Success
import ApiTypings.Proofs.Render.Declared

/-!
# Names of type parameters

A generic parameter has the name it is declared with, or a name by its position if that is blank.
Names by position differ from each other, so that the names of a node are distinct when the declared
ones are and no name by position is declared as well. Nothing keeps these two kinds apart: a
parameter that is called like the position of a blank one shares its name.
-/

namespace ApiTypings

namespace Node

/-- Whether a generic parameter is declared without a name. -/
def isUnnamed (declared : String) : Bool := Text.trim declared = ""

/-- The name of a parameter that is declared without one. -/
def defaultName (position : Nat) : String := "T" ++ toString position

/-- The names that parameters are declared with. -/
def declaredNames (declared : List String) : List String := declared.filter (!isUnnamed ·)

/-- The names that parameters have by their positions. -/
def defaultNames (declared : List String) : List String :=
  (declared.zipIdx.filter (isUnnamed ·.1)).map (defaultName ·.2)

/-- A parameter keeps its declared name, if it has one. -/
theorem parameterName_eq (position : Nat) (declared : String) : parameterName position declared =
    if isUnnamed declared then defaultName position else declared := by
  simp [parameterName, isUnnamed, defaultName]

/-- Default names are different. -/
theorem eq_of_defaultName_eq {i j : Nat} (h : defaultName i = defaultName j) : i = j := by
  rw [defaultName, defaultName, String.append_right_inj] at h
  have hdigits : Nat.toDigits 10 i = Nat.toDigits 10 j := by
    rw [← Nat.toList_repr, ← Nat.toList_repr]
    exact congrArg String.toList h
  rw [← Text.decimal_toDigits i, hdigits, Text.decimal_toDigits]

/-- The names of parameters are those by position and the declared ones, in some order. -/
theorem perm_parameterNames (declared : List String) :
    (declared.mapIdx parameterName).Perm (defaultNames declared ++ declaredNames declared) := by
  have hdefault : (declared.zipIdx.filter (isUnnamed ·.1)).map (fun p => parameterName p.2 p.1) =
      defaultNames declared := by
    refine List.map_congr_left fun p hp => ?_
    rw [parameterName_eq, if_pos (List.mem_filter.mp hp).2]
  have hdeclared :
      (declared.zipIdx.filter (!isUnnamed ·.1)).map (fun p => parameterName p.2 p.1) =
        declaredNames declared := by
    have hnames : ∀ p ∈ declared.zipIdx.filter (!isUnnamed ·.1), parameterName p.2 p.1 = p.1 := by
      intro p hp
      rw [parameterName_eq, if_neg]
      simpa using (List.mem_filter.mp hp).2
    rw [List.map_congr_left hnames, declaredNames, ← List.zipIdx_map_fst 0 declared,
      List.filter_map, List.zipIdx_map_fst]
    rfl
  rw [List.mapIdx_eq_zipIdx_map, ← hdefault, ← hdeclared, ← List.map_append]
  exact ((List.filter_append_perm _ _).symm).map _

/-- Names by position are distinct. -/
theorem nodup_defaultNames (declared : List String) : (defaultNames declared).Nodup := by
  have hpositions : ((declared.zipIdx.filter (isUnnamed ·.1)).map Prod.snd).Nodup := by
    refine (List.filter_sublist.map _).nodup ?_
    rw [List.zipIdx_map_snd]
    exact List.nodup_range' 1
  rw [defaultNames, ← Function.comp_def, ← List.map_map]
  exact hpositions.map fun _ _ => eq_of_defaultName_eq

/-- The names of parameters are distinct when the declared ones are, and none of them is the name of
another parameter by its position. -/
theorem nodup_parameterNames_iff (declared : List String) :
    (declared.mapIdx parameterName).Nodup ↔
      (declaredNames declared).Nodup ∧
        ∀ name ∈ defaultNames declared, name ∉ declaredNames declared := by
  rw [(perm_parameterNames declared).nodup_iff, List.nodup_append',
    and_iff_right (nodup_defaultNames declared)]
  rfl

end Node

namespace Render.Context

/-- A generic parameter is written under the name that the node has for it. -/
theorem map_param_eq_ok_iff {ctx : Context} {node : Node} {member : Member} {position : Nat}
    {t : TypeScript.TypeExpr} : ctx.map node member (.param position) = .ok t ↔
      ∃ name, node.genericParameters[position]? = some name ∧ t = .ref name := by
  rw [map]
  cases node.genericParameters[position]? with
  | none => simp
  | some name => simp [eq_comm]

/-- Parameters are written differently when the names that the node has for them are distinct. -/
theorem nodup_genericParameters_iff_map (ctx : Context) (node : Node) (member : Member) :
    node.genericParameters.Nodup ↔ ∀ i < node.genericParameters.length,
      ∀ j < node.genericParameters.length,
        ctx.map node member (.param i) = ctx.map node member (.param j) → i = j := by
  have hname : ∀ (i : Nat) (hi : i < node.genericParameters.length),
      ctx.map node member (.param i) = .ok (.ref node.genericParameters[i]) := fun i hi =>
    map_param_eq_ok_iff.mpr ⟨_, List.getElem?_eq_getElem hi, rfl⟩
  constructor
  · intro h i hi j hj heq
    rw [hname i hi, hname j hj, Except.ok.injEq, TypeScript.TypeExpr.ref.injEq] at heq
    exact h.getElem_inj_iff.mp heq
  · intro h
    rw [List.Nodup, List.pairwise_iff_getElem]
    intro i j hi hj hlt heq
    refine Nat.ne_of_lt hlt (h i hi j hj ?_)
    rw [hname i hi, hname j hj, heq]

end Render.Context

namespace Generation

/-- The names of the generic parameters of a discovered type are distinct exactly when the names
that they are declared with are, and none of those is the name that another parameter has by its
position. Exactly then different parameters are written differently in the type. The declaration of
a value type or a model has these names as its type parameters. -/
theorem nodup_genericParameters_iff {c : Catalog} {entryPoints : List Identity} {g : Graph}
    {n : Node} (hg : discover c entryPoints = .ok g) (hn : n ∈ g.nodes) :
    ∃ d, c.get? n.identity = some d ∧ n.genericParameters.length = n.identity.arity ∧
      (n.genericParameters.Nodup ↔
        (Node.declaredNames d.genericParameters).Nodup ∧
          ∀ name ∈ Node.defaultNames d.genericParameters,
            name ∉ Node.declaredNames d.genericParameters) ∧
      ∀ ctx : Render.Context,
        (∀ member, n.genericParameters.Nodup ↔ ∀ i < n.identity.arity, ∀ j < n.identity.arity,
          ctx.map n member (.param i) = ctx.map n member (.param j) → i = j) ∧
        ∀ x, Render.render ctx n = .ok x → ∃ declaration, x.file.declarations = [declaration] ∧
          (Render.rule n = .struct ∨ Render.rule n = .model →
            declaration.typeParams = n.genericParameters) := by
  have hresolve := resolve?_of_mem_nodes hg hn
  have hlength := Node.length_genericParameters_of_resolve? hresolve
  obtain ⟨d, hd, hnode⟩ := Option.map_eq_some_iff.mp hresolve
  have hnames : n.genericParameters = d.genericParameters.mapIdx Node.parameterName :=
    congrArg Node.genericParameters hnode.symm
  refine ⟨d, hd, hlength, ?_, fun ctx => ⟨fun member => ?_, fun x hx => ?_⟩⟩
  · rw [hnames]
    exact Node.nodup_parameterNames_iff d.genericParameters
  · rw [← hlength]
    exact ctx.nodup_genericParameters_iff_map n member
  · obtain ⟨declaration, hdeclaration, hdeclares⟩ := Render.Context.exists_declares_of_render hx
    refine ⟨declaration, hdeclaration, fun hrule => ?_⟩
    rw [hdeclares.typeParams, Render.declaredParameters]
    rcases hrule with hrule | hrule <;> rw [hrule]

end Generation

/-! ## A catalog of pairs -/

namespace Shop

open Generation (context run Succeeds)

/-- A model whose first parameter is called like the position of the second, which is blank. -/
def pair : Definition where
  ns := "Shop"
  name := "Pair"
  kind := .classType
  genericParameters := ["T1", ""]
  properties := [{ name := "First", type := .param 0 }, { name := "Second", type := .param 1 }]

/-- A model with a declared parameter and two blank ones. -/
def entry : Definition where
  ns := "Shop"
  name := "Entry"
  kind := .classType
  genericParameters := ["TKey", "", " "]
  properties := [{ name := "Key", type := .param 0 }, { name := "Value", type := .param 1 }]

/-- A controller that returns both. -/
def pairsController : Definition where
  ns := "Shop"
  name := "PairsController"
  kind := .classType
  controller := true
  actions := [
    { name := "First", returns :=
        .generic "Shop.Pair" [.simple "System.Int32", .simple "System.String"] },
    { name := "Find", returns := .generic "Shop.Entry"
        [.simple "System.Int32", .simple "System.String", .simple "System.Boolean"] }]

/-- The catalog of the three. -/
def pairs : Catalog := ⟨[pairsController, pair, entry], by decide⟩

/-- The graph that the controller leads to. -/
def pairsGraph : Graph :=
  ⟨[.ofDefinition pairsController, .ofDefinition pair, .ofDefinition entry]⟩

open Discovery in
private theorem discover_eq_pairsGraph : discover pairs pairs.entryPoints = .ok pairsGraph := by
  rw [discover, visitEntryPoints_eq_run]
  refine (congrArg _ (run_defined _ List.not_mem_nil (by decide) rfl _)).trans ?_
  refine (congrArg _ (run_defined _ (by decide) (by decide) rfl _)).trans ?_
  refine (congrArg _ (run_system _ (by decide) (by decide) _)).trans ?_
  refine (congrArg _ (run_system _ (by decide) (by decide) _)).trans ?_
  refine (congrArg _ (run_defined _ (by decide) (by decide) rfl _)).trans ?_
  refine (congrArg _ (run_visited _ (by decide) _)).trans ?_
  refine (congrArg _ (run_visited _ (by decide) _)).trans ?_
  refine (congrArg _ (run_system _ (by decide) (by decide) _)).trans ?_
  exact congrArg _ (run_nil pairs _)

private theorem exists_succeeds_pairs (style : Style) :
    ∃ rendered, Succeeds style pairs pairsGraph rendered := by
  refine Generation.exists_succeeds discover_eq_pairsGraph rfl ?_
  refine List.forall_mem_cons.mpr ⟨?_, List.forall_mem_cons.mpr ⟨⟨_, rfl⟩,
    List.forall_mem_cons.mpr ⟨⟨_, rfl⟩, nofun⟩⟩⟩
  refine Render.Context.exists_render_of_not_mem ?_ (by decide)
  exact List.forall_mem_cons.mpr ⟨⟨_, rfl⟩, List.forall_mem_cons.mpr ⟨⟨_, rfl⟩, nofun⟩⟩

private theorem pair_mem_nodes : Node.ofDefinition pair ∈ pairsGraph.nodes :=
  List.mem_cons_of_mem _ (List.mem_cons_self ..)

private theorem entry_mem_nodes : Node.ofDefinition entry ∈ pairsGraph.nodes :=
  List.mem_cons_of_mem _ (List.mem_cons_of_mem _ (List.mem_cons_self ..))

/-- The blank parameters of an entry get names of their own. -/
theorem nodup_genericParameters_entry : discover pairs pairs.entryPoints = .ok pairsGraph ∧
    Node.ofDefinition entry ∈ pairsGraph.nodes ∧
    (Node.ofDefinition entry).genericParameters.Nodup := by
  obtain ⟨d, hd, -, hiff, -⟩ :=
    Generation.nodup_genericParameters_iff discover_eq_pairsGraph entry_mem_nodes
  obtain rfl : entry = d := Option.some.inj hd
  exact ⟨discover_eq_pairsGraph, entry_mem_nodes, hiff.mpr ⟨by decide, by decide⟩⟩

/-- Under any schedule the run on the pairs succeeds. A pair is declared with a single name, yet
both of its parameters have that name: they are written alike, and the interface declares it
twice. -/
theorem not_nodup_genericParameters_pair : ∃ report files,
    (∀ schedule, run schedule {} pairs = .ok (report, files)) ∧
    ∃ rendered, Succeeds {} pairs pairsGraph rendered ∧
      Node.ofDefinition pair ∈ pairsGraph.nodes ∧
      (Node.declaredNames pair.genericParameters).Nodup ∧
      ¬ (Node.ofDefinition pair).genericParameters.Nodup ∧
      (∀ member, (context {} pairsGraph).map (.ofDefinition pair) member (.param 0) =
        (context {} pairsGraph).map (.ofDefinition pair) member (.param 1)) ∧
      ∃ x ∈ rendered, ∃ d, x.file.declarations = [d] ∧ d.name = "Pair" ∧
        d.typeParams = ["T1", "T1"] := by
  obtain ⟨rendered, hs⟩ := exists_succeeds_pairs {}
  refine ⟨_, _, hs.run_eq, rendered, hs,
    pair_mem_nodes, by decide, by decide, fun _ => rfl, ?_⟩
  obtain ⟨x, hx, hrender⟩ := exists_mem_of_mapM hs.rendered pair_mem_nodes
  obtain ⟨d, hd, hdeclares⟩ := Render.Context.exists_declares_of_render hrender
  exact ⟨x, hx, d, hd, hdeclares.name.trans (by decide), hdeclares.typeParams.trans (by decide)⟩

end Shop

end ApiTypings
