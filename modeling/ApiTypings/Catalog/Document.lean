import ApiTypings.Catalog.Basic
import ApiTypings.Catalog.Decoding
import ApiTypings.Disk.FileSystem

/-!
# Catalog documents

A catalog document is an object with one field, `types`, a list of definitions. Unknown fields
are refused in the document and ignored in everything below it. A field with a default may be
left out. Identities are compared only once the whole document is decoded.
-/

namespace ApiTypings.Document

open Json (Value)

/-- Decodes a reference from its written form. -/
def reference : Decoder Reference := fun v => do
  (Reference.parse (← string v)).mapError .reference

/-- The fields of a property that have been met. -/
structure PropertySlots where
  name : Option String := none
  type : Option Reference := none
  indexer : Option Bool := none

/-- Properties: a name, a type, and whether the property takes arguments. -/
def propertyRecord : Record PropertySlots PropertyDef where
  expected := "struct PropertyDef"
  start := {}
  fields := [
    ("name", fun s v => (once "name" string s.name v).map fun x => { s with name := x }),
    ("type", fun s v => (once "type" reference s.type v).map fun x => { s with type := x }),
    ("indexer", fun s v => (once "indexer" boolean s.indexer v).map fun x =>
      { s with indexer := x })]
  finish s := do
    let name ← required "name" s.name
    let type ← required "type" s.type
    return { name := name, type := type, indexer := s.indexer.getD false }

/-- The fields of a parameter that have been met. -/
structure ParameterSlots where
  name : Option String := none
  type : Option Reference := none

/-- Parameters: a name and a type. -/
def parameterRecord : Record ParameterSlots ParameterDef where
  expected := "struct ParameterDef"
  start := {}
  fields := [
    ("name", fun s v => (once "name" string s.name v).map fun x => { s with name := x }),
    ("type", fun s v => (once "type" reference s.type v).map fun x => { s with type := x })]
  finish s := do
    let name ← required "name" s.name
    let type ← required "type" s.type
    return { name := name, type := type }

/-- The fields of an action that have been met. -/
structure ActionSlots where
  name : Option String := none
  method : Option Verb := none
  route : Option (Option String) := none
  returns : Option Reference := none
  parameters : Option (List ParameterDef) := none

/-- Actions: a name, and with defaults a verb, a route, a result and parameters. -/
def actionRecord : Record ActionSlots ActionDef where
  expected := "struct ActionDef"
  start := {}
  fields := [
    ("name", fun s v => (once "name" string s.name v).map fun x => { s with name := x }),
    ("method", fun s v => (once "method" (variant Verb.all Verb.name) s.method v).map fun x =>
      { s with method := x }),
    ("route", fun s v => (once "route" (optional string) s.route v).map fun x =>
      { s with route := x }),
    ("returns", fun s v => (once "returns" reference s.returns v).map fun x =>
      { s with returns := x }),
    ("parameters", fun s v =>
      (once "parameters" (sequence parameterRecord.decode) s.parameters v).map fun x =>
        { s with parameters := x })]
  finish s := do
    let name ← required "name" s.name
    return {
      name := name
      verb := s.method.getD .get
      route := s.route.getD none
      returns := s.returns.getD .void
      parameters := s.parameters.getD [] }

/-- The fields of a definition that have been met. -/
structure DefinitionSlots where
  ns : Option String := none
  name : Option String := none
  kind : Option TypeKind := none
  genericParameters : Option (List String) := none
  baseType : Option (Option Reference) := none
  properties : Option (List PropertyDef) := none
  enumMembers : Option (List String) := none
  controller : Option Bool := none
  actions : Option (List ActionDef) := none

/-- Definitions: a name and a kind, everything else with a default. -/
def definitionRecord : Record DefinitionSlots Definition where
  expected := "struct TypeDefinition"
  start := {}
  fields := [
    ("namespace", fun s v => (once "namespace" string s.ns v).map fun x => { s with ns := x }),
    ("name", fun s v => (once "name" string s.name v).map fun x => { s with name := x }),
    ("kind", fun s v => (once "kind" (variant TypeKind.all TypeKind.name) s.kind v).map fun x =>
      { s with kind := x }),
    ("genericParameters", fun s v =>
      (once "genericParameters" (sequence string) s.genericParameters v).map fun x =>
        { s with genericParameters := x }),
    ("baseType", fun s v => (once "baseType" (optional reference) s.baseType v).map fun x =>
      { s with baseType := x }),
    ("properties", fun s v =>
      (once "properties" (sequence propertyRecord.decode) s.properties v).map fun x =>
        { s with properties := x }),
    ("enumMembers", fun s v => (once "enumMembers" (sequence string) s.enumMembers v).map fun x =>
      { s with enumMembers := x }),
    ("controller", fun s v => (once "controller" boolean s.controller v).map fun x =>
      { s with controller := x }),
    ("actions", fun s v => (once "actions" (sequence actionRecord.decode) s.actions v).map fun x =>
      { s with actions := x })]
  finish s := do
    let name ← required "name" s.name
    let kind ← required "kind" s.kind
    return {
      ns := s.ns.getD ""
      name := name
      kind := kind
      genericParameters := s.genericParameters.getD []
      baseType := s.baseType.getD none
      properties := s.properties.getD []
      enumMembers := s.enumMembers.getD []
      controller := s.controller.getD false
      actions := s.actions.getD [] }

/-- Documents: the list of definitions and nothing else. -/
def catalogRecord : Record (Option (List Definition)) (List Definition) where
  expected := "struct CatalogDocument"
  start := none
  fields := [("types", fun s v => once "types" (sequence definitionRecord.decode) s v)]
  finish s := required "types" s
  only := some "types"

/-- Whether a text is well formed throughout, in what a document ignores as well. -/
def isWellFormed (text : String) : Bool := (Json.read text).any Value.isProper

/-- Decodes the definitions of a document. What is wrong with its values only counts if all of
its text is well formed; what is ignored need not be. -/
def definitions (text : String) : Except Fault (List Definition) :=
  match Json.read text with
  | none => .error .malformed
  | some v =>
    (catalogRecord.decode v).mapError fun fault =>
      if isWellFormed text then fault else .malformed

end ApiTypings.Document

namespace ApiTypings

/-- Why a document gives no catalog. -/
inductive CatalogFault.Reason where
  | document (fault : Document.Fault)
  | duplicate (id : Identity)
  /-- The file could not be read. -/
  | unreadable (fault : DiskFault)
  deriving Repr

/-- A catalog that cannot be read or merged, and where it came from. -/
structure CatalogFault where
  path : String
  reason : CatalogFault.Reason
  deriving Repr

namespace CatalogFault

/-- The wording of a reason. -/
def Reason.message : Reason → String
  | .document fault => fault.message
  | .duplicate id => "type `" ++ id.display ++ "` is defined more than once"
  | .unreadable fault => fault.message

/-- The wording of a fault. -/
def message (fault : CatalogFault) : String :=
  "invalid metadata catalog " ++ fault.path ++ ": " ++ fault.reason.message

end CatalogFault

namespace Catalog

/-- The catalog of a document that came from `path`. -/
def ofDocument (text path : String) : Except CatalogFault Catalog :=
  match Document.definitions text with
  | .error fault => .error ⟨path, .document fault⟩
  | .ok ds => (ofDefinitions ds).mapError fun id => ⟨path, .duplicate id⟩

/-- `merge`, with the fault that a refused identity causes for documents from `path`. -/
def mergeFrom (c other : Catalog) (path : String) : Catalog × Except CatalogFault Unit :=
  match c.merge other with
  | (c', none) => (c', .ok ())
  | (c', some id) => (c', .error ⟨path, .duplicate id⟩)

end Catalog

end ApiTypings
