import ApiTypings.Render.Mapping
import ApiTypings.Render.Route
import ApiTypings.Render.Contract

/-!
# Writers of declarations

Each kind of node has a writer that turns it into a file: an enum into its member names, a value
type into an opaque wrapper of a string, a model into an interface, a controller into a class
with one method for each action. A file imports the discovered types that its references name,
other than the one it declares, each once and in the order of first use.
-/

namespace ApiTypings.Render

open TypeScript

/-- The file of a node and the discovered types it imports. -/
structure Rendered where
  identity : Identity
  file : SourceFile
  imports : List Identity

/-- The lines of a rendered file, without indentation. -/
def Rendered.lines (r : Rendered) : List String := r.file.lines

namespace Context

/-- Whether declarations are exported. -/
def exported (ctx : Context) : Bool := ctx.moduleStyle == .modules

/-- The import of names that the file of that stem declares. -/
def importOf (ctx : Context) (stem : String) (items : List String) : Import :=
  match ctx.moduleStyle with
  | .modules => .named items ("./" ++ stem)
  | .globals => .reference ("./" ++ stem ++ ".ts")

/-- The discovered types that references of `own` name, other than `own`, in the order of first
use. -/
def imported (ctx : Context) (own : Identity) (refs : List Reference) : List Identity :=
  ((refs.flatMap Reference.identities).filter fun id => id ≠ own && ctx.graph.contains id).eraseDups

/-- The file of a declaration: fixed imports, then those of discovered types. -/
def file (ctx : Context) (own : Identity) (fixed : List Import) (declaration : Declaration)
    (imports : List Identity) : Rendered where
  identity := own
  file := {
    imports := fixed ++ imports.map fun id => ctx.importOf id.declaredName [id.declaredName]
    declarations := [declaration] }
  imports := imports

/-- An enum: its member names in order, without values. -/
def writeEnum (ctx : Context) (node : Node) : Rendered :=
  ctx.file node.identity [] {
    name := node.identity.declaredName
    exported := ctx.exported
    kind := .enumeration node.enumMembers } []

/-- A value type: an opaque wrapper of a string. -/
def writeStruct (ctx : Context) (node : Node) : Rendered :=
  ctx.file node.identity [] {
    name := node.identity.declaredName
    typeParams := node.genericParameters
    exported := ctx.exported
    kind := .stringWrapper } []

/-- The base of a model, if its outermost type is a discovered one. -/
def discoveredBase (ctx : Context) (node : Node) : Option Reference :=
  node.baseType.filter fun base => base.identity?.any ctx.graph.contains

/-- A property of a model. -/
def property (ctx : Context) (node : Node) (p : PropertyDef) : Except Unmappable Property :=
  (ctx.map node (.property p.name) p.type).map fun type => { name := p.name, type := type }

/-- A model: an interface with a field for each property, over its base if that is discovered. -/
def writeModel (ctx : Context) (node : Node) : Except Unmappable Rendered := do
  let base := ctx.discoveredBase node
  let extended ← base.mapM (ctx.map node .base)
  let properties ← node.properties.mapM (ctx.property node)
  return ctx.file node.identity [] {
    name := node.identity.declaredName
    typeParams := node.genericParameters
    exported := ctx.exported
    kind := .interface extended properties [] }
    (ctx.imported node.identity (base.toList ++ node.properties.map PropertyDef.type))

/-- A parameter of the method for an action. -/
def parameter (ctx : Context) (node : Node) (action : ActionDef) (p : ParameterDef) :
    Except Unmappable Parameter :=
  (ctx.map node (.parameter action.name p.name) p.type).map fun type =>
    { name := identifier p.name, type := type }

end Context

/-- The argument that a parameter of an action is bound to. -/
def Argument.ofParameter (p : ParameterDef) : Argument := ⟨p.name, identifier p.name⟩

/-- The arguments at positions that are not bound by the route, in order. -/
def unbound (arguments : List Argument) (bound : List Nat) : List Argument :=
  (arguments.zipIdx.filter fun a => !bound.contains a.2).map Prod.fst

/-- What a request carries besides its URL: the one argument itself if it is the body, else an
object of all of them. -/
def payload (verb : Verb) (arguments : List Argument) : Expr :=
  match arguments, verb.hasBody with
  | [a], true => .ident a.ident
  | _, _ => .object (arguments.map fun a => (a.key, .ident a.ident))

namespace Context

/-- The method for an action of the controller `node`: it calls the contract with the URL, the
payload and the options of the request. -/
def method (ctx : Context) (node : Node) (action : ActionDef) : Except Unmappable Method := do
  let result ← ctx.map node (.returned action.name) action.returns
  let params ← action.parameters.mapM (ctx.parameter node action)
  let arguments := action.parameters.map Argument.ofParameter
  let path := actionPath node.identity.name action
  let (url, bound) ← (Route.url path arguments).mapError fun placeholder =>
    Unmappable.mk node.identity (.route action.name)
      (.unboundSegment (String.ofList placeholder))
  let call := Expr.call (.member (.ident "restApi") action.verb.clientMethod) [result]
    [url, payload action.verb (unbound arguments bound), .ident "config"]
  return {
    name := action.name
    isPublic := true
    params := [{ name := "restApi", type := .ref contractName }] ++ params ++
      [{ name := "config", type := .ref requestConfigName, optional := true }]
    result := some (.generic "Promise" [result])
    body := some [.returns call] }

/-- A controller: a class with a method for each action. -/
def writeController (ctx : Context) (node : Node) : Except Unmappable Rendered := do
  let methods ← node.actions.mapM (ctx.method node)
  let refs := (node.actions.flatMap Node.actionReferences).map Prod.fst
  return ctx.file node.identity [ctx.importOf contractName [contractName, requestConfigName]] {
    name := node.identity.declaredName
    exported := ctx.exported
    kind := .classType methods }
    (ctx.imported node.identity refs)

end Context

end ApiTypings.Render
