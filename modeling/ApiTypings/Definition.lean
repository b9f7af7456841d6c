import ApiTypings.Reference.Basic

/-!
# Definitions of types

What a metadata source says about one exported type: its kind, its generic parameters, its base,
its properties, the members of an enum and, for a controller, the actions it exposes.
-/

namespace ApiTypings

/-- The declared kind of a type. -/
inductive TypeKind where
  | primitive
  | enum
  | struct
  | classType
  | interface
  | delegate
  deriving DecidableEq, Repr, Inhabited

namespace TypeKind

/-- The kinds in the order in which they are listed. -/
def all : List TypeKind := [primitive, enum, struct, classType, interface, delegate]

/-- The name of a kind. -/
def name : TypeKind → String
  | primitive => "primitive"
  | enum => "enum"
  | struct => "struct"
  | classType => "class"
  | interface => "interface"
  | delegate => "delegate"

/-- The kind of a name. -/
def ofName? (text : String) : Option TypeKind := all.find? (·.name = text)

/-- Primitives, enums and structs are value types. -/
def isValueType : TypeKind → Bool
  | primitive | enum | struct => true
  | _ => false

end TypeKind

/-- The verb of an action. -/
inductive Verb where
  | get
  | post
  | put
  | delete
  deriving DecidableEq, Repr, Inhabited

namespace Verb

/-- The verbs in the order in which they are listed. -/
def all : List Verb := [get, post, put, delete]

/-- The name of a verb in a request. -/
def name : Verb → String
  | get => "GET"
  | post => "POST"
  | put => "PUT"
  | delete => "DELETE"

/-- The verb of a name. -/
def ofName? (text : String) : Option Verb := all.find? (·.name = text)

/-- Whether parameters travel in the body of the request. -/
def hasBody : Verb → Bool
  | post | put => true
  | _ => false

/-- The member of the contract that serves a verb. -/
def clientMethod : Verb → String
  | get => "Get"
  | post => "Post"
  | put => "Put"
  | delete => "Delete"

end Verb

/-- A property of a type. -/
structure PropertyDef where
  name : String
  type : Reference
  /-- Whether the property takes arguments; such a property is no part of a shape. -/
  indexer : Bool := false
  deriving Repr, Inhabited

/-- A parameter of an action. -/
structure ParameterDef where
  name : String
  type : Reference
  deriving Repr, Inhabited

/-- An action that a controller exposes. -/
structure ActionDef where
  name : String
  verb : Verb := .get
  /-- The path of the action, when it is not the one its names give. -/
  route : Option String := none
  returns : Reference := .void
  parameters : List ParameterDef := []
  deriving Repr, Inhabited

/-- What is known about one exported type. -/
structure Definition where
  ns : String := ""
  name : String
  kind : TypeKind
  /-- The declared names of the generic parameters, blank where there is none. -/
  genericParameters : List String := []
  baseType : Option Reference := none
  properties : List PropertyDef := []
  enumMembers : List String := []
  /-- Whether the type is an API controller. -/
  controller : Bool := false
  actions : List ActionDef := []
  deriving Repr, Inhabited

namespace Definition

/-- The identity of a definition; its arity is the number of declared parameters. -/
def identity (d : Definition) : Identity := ⟨d.ns, d.name, d.genericParameters.length⟩

/-- The properties that are part of the shape. -/
def shapeProperties (d : Definition) : List PropertyDef := d.properties.filter (!·.indexer)

/-- The definition with one more action, which makes it a controller. -/
def addAction (d : Definition) (action : ActionDef) : Definition :=
  { d with controller := true, actions := d.actions ++ [action] }

end Definition

end ApiTypings
