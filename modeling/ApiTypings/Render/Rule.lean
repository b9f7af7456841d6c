import ApiTypings.Render.Writer

/-!
# Which writer a node gets

Rules are tried in a fixed order and the first that matches decides. The last one matches every
node, so each node has a writer.
-/

namespace ApiTypings.Render

/-- A rule, named for the writer it selects. -/
inductive Rule where
  | controller
  | enum
  | struct
  | model
  deriving DecidableEq, Repr, Inhabited

namespace Rule

/-- The rules in the order in which they are tried. -/
def order : List Rule := [controller, enum, struct, model]

/-- The name of a rule. -/
def name : Rule → String
  | controller => "Controller"
  | enum => "Enum"
  | struct => "Struct"
  | model => "Model"

/-- Whether a rule applies to a type of that kind. -/
def applies (rule : Rule) (kind : TypeKind) (isController : Bool) : Bool :=
  match rule with
  | controller => isController
  | enum => kind = .enum
  | struct => kind.isValueType
  | model => true

/-- The rules that apply, in order. -/
def applicable (kind : TypeKind) (isController : Bool) : List Rule :=
  order.filter (·.applies kind isController)

/-- The rule that decides. -/
def select (kind : TypeKind) (isController : Bool) : Rule :=
  (applicable kind isController).headD model

/-- Writes a node by a rule. -/
def write (rule : Rule) (ctx : Context) (node : Node) : Except Unmappable Rendered :=
  match rule with
  | controller => ctx.writeController node
  | enum => .ok (ctx.writeEnum node)
  | struct => .ok (ctx.writeStruct node)
  | model => ctx.writeModel node

end Rule

/-- The rule of a node. -/
def rule (node : Node) : Rule := Rule.select node.kind node.controller

/-- Writes a node by its rule. -/
def render (ctx : Context) (node : Node) : Except Unmappable Rendered := (rule node).write ctx node

end ApiTypings.Render
