import ApiTypings.Catalog.Basic

/-!
# Nodes of the type graph

A node is the shape of one defined type as the writers need it. Its references are the uses of
types that its text will contain, each labelled with the member it belongs to: a controller has
those of its action signatures only, any other type its base and its properties.
-/

namespace ApiTypings

/-- Where in a type a reference stands. -/
inductive Member where
  | entryPoint
  | returned (action : String)
  | parameter (action parameter : String)
  | route (action : String)
  | base
  | property (name : String)
  deriving DecidableEq, Repr

/-- The displayed form of a member. -/
def Member.label : Member → String
  | .entryPoint => "<entry point>"
  | .returned action => action ++ "() return"
  | .parameter action name => action ++ "(" ++ name ++ ")"
  | .route action => action ++ "() route"
  | .base => "base type"
  | .property name => name

/-- The shape of one defined type. -/
structure Node where
  identity : Identity
  kind : TypeKind
  controller : Bool
  /-- A name for each generic parameter. -/
  genericParameters : List String
  baseType : Option Reference
  properties : List PropertyDef
  enumMembers : List String
  actions : List ActionDef
  deriving Repr, Inhabited

namespace Node

/-- The name of a generic parameter: the declared one, or `T` and the position if it is blank. -/
def parameterName (position : Nat) (declared : String) : String :=
  if Text.trim declared = "" then "T" ++ toString position else declared

/-- The node of a definition. -/
def ofDefinition (d : Definition) : Node where
  identity := d.identity
  kind := d.kind
  controller := d.controller
  genericParameters := d.genericParameters.mapIdx parameterName
  baseType := d.baseType
  properties := d.shapeProperties
  enumMembers := d.enumMembers
  actions := d.actions

/-- The node of an identity, if the catalog defines it. -/
def resolve? (c : Catalog) (id : Identity) : Option Node := (c.get? id).map ofDefinition

/-- The references in the signature of an action: what it returns, then its parameters. -/
def actionReferences (action : ActionDef) : List (Reference × Member) :=
  (action.returns, .returned action.name) ::
    action.parameters.map fun p => (p.type, .parameter action.name p.name)

/-- The references of a node with their members, in order. -/
def references (n : Node) : List (Reference × Member) :=
  if n.controller then n.actions.flatMap actionReferences
  else n.baseType.toList.map (·, .base) ++ n.properties.map fun p => (p.type, .property p.name)

/-- A node has the identity that resolves to it. -/
theorem identity_of_resolve? {c : Catalog} {id : Identity} {n : Node}
    (h : resolve? c id = some n) : n.identity = id := by
  obtain ⟨d, hd, rfl⟩ := Option.map_eq_some_iff.mp h
  exact Catalog.identity_of_get? hd

/-- Only defined identities resolve to a node. -/
theorem mem_identities_of_resolve? {c : Catalog} {id : Identity} {n : Node}
    (h : resolve? c id = some n) : id ∈ c.identities := by
  obtain ⟨d, hd, _⟩ := Option.map_eq_some_iff.mp h
  exact Catalog.mem_identities_of_get? hd

/-- A node has as many parameters as its identity has places for. -/
theorem length_genericParameters_of_resolve? {c : Catalog} {id : Identity} {n : Node}
    (h : resolve? c id = some n) : n.genericParameters.length = id.arity := by
  obtain ⟨d, hd, rfl⟩ := Option.map_eq_some_iff.mp h
  rw [← Catalog.identity_of_get? hd, ofDefinition, List.length_mapIdx]
  rfl

end Node

/-- Nodes in the order of their discovery. -/
structure Graph where
  nodes : List Node := []
  deriving Repr, Inhabited

namespace Graph

/-- The identities of the nodes, in order. -/
def identities (g : Graph) : List Identity := g.nodes.map Node.identity

/-- The number of nodes. -/
def size (g : Graph) : Nat := g.nodes.length

/-- The node of an identity. -/
def node? (g : Graph) (id : Identity) : Option Node := g.nodes.find? (·.identity = id)

/-- Whether the graph has a node of that identity. -/
def contains (g : Graph) (id : Identity) : Bool := (g.node? id).isSome

/-- A graph contains the identities of its nodes. -/
theorem contains_iff {g : Graph} {id : Identity} : g.contains id = true ↔ id ∈ g.identities := by
  simp [contains, node?, identities]

end Graph

end ApiTypings
