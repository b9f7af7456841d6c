import ApiTypings.Proofs.Render.Induction
import ApiTypings.Proofs.Success
import ApiTypings.Proofs.TypeScript.Interface
import ApiTypings.Render.Writer

/-!
# A model keeps its shape

What a reference is mapped to can be read back when no discovered type is called like a type of the
language and the generic parameters are names of types. So the declaration of a model determines the
name it declares, its generic parameters, what it extends, and the names of its properties with what
their types are mapped to.
-/

namespace ApiTypings

namespace Render.Context

open TypeScript (TypeExpr Shape IsTypeName languageTypes)

variable {ctx ctx' : Context} {node node' : Node} {member : Member}

/-- The names that the references of a node are mapped to are not read as anything else. -/
structure NamesTypes (ctx : Context) (node : Node) : Prop where
  /-- No discovered type is called like a type of the language. -/
  discovered : ∀ n ∈ ctx.graph.nodes, n.identity.name ∉ languageTypes
  parameters : ∀ name ∈ node.genericParameters, IsTypeName name

/-- Discovered types are declared under names of types. -/
theorem NamesTypes.declaredName (h : ctx.NamesTypes node) {id : Identity} {target : Node}
    (hid : ctx.graph.node? id = some target) : IsTypeName id.declaredName := by
  obtain rfl : target.identity = id := by simpa using List.find?_some hid
  exact TypeScript.isTypeName_identifier (h.discovered target (List.mem_of_find?_eq_some hid))

/-- The type expression can be read back, and it is a union only if it allows `null`. -/
def ReadsBack (t : TypeExpr) : Prop := t.Readable ∧ t.allowsNull = t.isUnion

/-- What may be missing reads back when the rest does. -/
theorem ReadsBack.nullable {t : TypeExpr} (h : ReadsBack t) : ReadsBack (ctx.nullable t) := by
  rw [Context.nullable, h.2]
  split
  · next hadded =>
    rw [Bool.and_eq_true, Bool.not_eq_true'] at hadded
    refine ⟨h.1.orNull hadded.2, ?_⟩
    simp [TypeExpr.orNull, TypeExpr.allowsNull, TypeExpr.isUnion, TypeExpr.isNull]
  · exact h

private theorem readsBack_ofName {name : String} {args : List Reference} {ts : List TypeExpr}
    (hname : IsTypeName name) (h : List.Forall₂ (fun _ t => ReadsBack t) args ts) :
    ReadsBack (.ofName name ts) := by
  have hall : ∀ t ∈ ts, t.Readable := by
    induction h with
    | nil => exact fun _ => nofun
    | cons ht _ ih => exact List.forall_mem_cons.mpr ⟨ht.1, ih⟩
  refine ⟨.ofName hname hall, ?_⟩
  cases ts with
  | nil => rfl
  | cons t ts => rfl

/-- What a reference is mapped to can be read back. -/
theorem readsBack_of_map (hnames : ctx.NamesTypes node) {r : Reference} {t : TypeExpr}
    (h : ctx.map node member r = .ok t) : ReadsBack t := by
  refine map_induction (motive := fun _ t => ReadsBack t)
    ?param ?array ?nullable ?type ?plain ?done ?argument h
  case param =>
    exact fun _ name hname => ⟨.ref (hnames.parameters name (List.mem_of_getElem? hname)), rfl⟩
  case array => exact fun _ _ ih => ⟨.array ih.1, rfl⟩
  case nullable => exact fun _ _ ih => ih.nullable
  case type => exact fun _ _ _ _ hid _ ih => readsBack_ofName (hnames.declaredName hid) ih
  case plain =>
    intro id args shape t _ _ hplain
    cases shape with
    | number | string | boolean | unknown | void =>
      cases hplain
      exact ⟨.primitive _, rfl⟩
    | date =>
      cases hplain
      exact ⟨.ref (by decide), rfl⟩
    | collection | dictionary | nullable | task => cases hplain
  case done => exact fun _ _ _ => ⟨.primitive _, rfl⟩
  case argument =>
    intro id args shape position r t _ _ hposition _ ih
    cases shape with
    | collection => exact ⟨.array ih.1, rfl⟩
    | dictionary => exact ⟨.record (.primitive _) ih.1, rfl⟩
    | nullable => exact ih.nullable
    | task => exact ih
    | number | string | boolean | date | unknown | void => cases hposition

/-- What a model is written from: its name, its generic parameters, what its base is mapped to, and
the names of its properties with what their types are mapped to, in order. -/
def shape (ctx : Context) (node : Node) : Except Unmappable Shape := do
  let base ← (ctx.discoveredBase node).mapM (ctx.map node .base)
  let fields ← node.properties.mapM fun p =>
    (ctx.map node (.property p.name) p.type).map (Prod.mk p.name)
  return {
    name := node.identity.declaredName
    parameters := node.genericParameters
    base := base
    fields := fields }

private theorem readable_of_shape {s : Shape} (hnames : ctx.NamesTypes node)
    (h : ctx.shape node = .ok s) : s.Readable := by
  rw [shape] at h
  obtain ⟨base, hbase, h⟩ := exists_of_bind_ok h
  obtain ⟨fields, hfields, hs⟩ := exists_of_bind_ok h
  cases hs
  constructor
  case name =>
    intro c hc
    rw [TypeScript.isNameChar, TypeScript.isPlainChar_of_mem_identifier hc, Bool.true_or]
  case parameters => exact hnames.parameters
  case base =>
    intro t ht
    obtain ⟨r, _, hmapped⟩ := exists_of_mem_optionMapM hbase ht
    exact (readsBack_of_map hnames hmapped).1
  case fields =>
    intro f hf
    obtain ⟨p, _, hmapped⟩ := exists_of_mem_mapM hfields hf
    obtain ⟨t, ht, rfl⟩ := exists_of_map_ok hmapped
    exact (readsBack_of_map hnames ht).1

/-- A model that is written has a shape, and its file declares that. -/
theorem exists_shape_of_writeModel {x : Rendered} (h : ctx.writeModel node = .ok x) :
    ∃ s, ctx.shape node = .ok s ∧ x.file.declarations = [s.declaration ctx.exported] := by
  rw [writeModel] at h
  obtain ⟨extended, hextended, h⟩ := exists_of_bind_ok h
  obtain ⟨properties, hproperties, hx⟩ := exists_of_bind_ok h
  cases hx
  -- The writer makes a property of each field at once; a shape keeps the fields apart from it.
  have hproperty : ctx.property node = fun p =>
      ((ctx.map node (.property p.name) p.type).map (Prod.mk p.name)).map
        fun f => { name := f.1, type := f.2 } := by
    funext p
    rw [property]
    cases ctx.map node (.property p.name) p.type <;> rfl
  rw [hproperty, mapM_map_ok] at hproperties
  obtain ⟨fields, hfields, rfl⟩ := exists_of_map_ok hproperties
  refine ⟨⟨_, _, extended, fields⟩, ?_, rfl⟩
  rw [shape, hextended, hfields]
  rfl

/-- Models with the same declaration lines have the same shape. -/
theorem shape_eq_of_lines_eq {x x' : Rendered} (h : ctx.writeModel node = .ok x)
    (h' : ctx'.writeModel node' = .ok x') (hnames : ctx.NamesTypes node)
    (hnames' : ctx'.NamesTypes node')
    (hlines : x.file.declarations.flatMap TypeScript.Declaration.lines =
      x'.file.declarations.flatMap TypeScript.Declaration.lines) :
    ∃ s, ctx.shape node = .ok s ∧ ctx'.shape node' = .ok s := by
  obtain ⟨s, hs, hdeclared⟩ := exists_shape_of_writeModel h
  obtain ⟨s', hs', hdeclared'⟩ := exists_shape_of_writeModel h'
  rw [hdeclared, hdeclared', List.flatMap_singleton, List.flatMap_singleton] at hlines
  obtain rfl := Shape.eq_of_lines_eq (readable_of_shape hnames hs) (readable_of_shape hnames' hs')
    hlines
  exact ⟨s, hs, hs'⟩

end Render.Context

namespace Shop

open Render (Context)

/-- A type that others extend. -/
def envelope : Definition where
  ns := "Shop"
  name := "Envelope"
  kind := .classType
  genericParameters := ["TBody"]

/-- A model that extends it, with a property for each kind of key. -/
def ledger (entries : Reference) : Definition where
  ns := "Shop"
  name := "Ledger"
  kind := .classType
  genericParameters := ["T"]
  baseType := some (.generic "Shop.Envelope" [.param 0])
  properties := [
    { name := "Entries", type := entries },
    { name := "", type := .simple "System.Int32" },
    { name := "\"Sum\": \x7b\\", type := .nullable (.simple "System.Decimal") }]

/-- Entries in an array. -/
def entryArray : Reference := .array (.param 0)

/-- Entries in a list. -/
def entryList : Reference := .generic "System.Collections.Generic.List" [.param 0]

/-- The declaration of the model, whichever of the two holds its entries. -/
def ledgerLines : List String := [
  "export interface Ledger<T> extends Envelope<T> \x7b",
  "Entries: T[];",
  "\"\": number;",
  "\"\\\"Sum\\\": \x7b\\\\\": number | null;",
  "\x7d"]

/-- The context of a run that has found the two. -/
def ledgerContext (entries : Reference) : Context where
  moduleStyle := .modules
  strictNull := true
  graph := ⟨[.ofDefinition (ledger entries), .ofDefinition envelope]⟩

private theorem namesTypes_ledger (entries : Reference) :
    (ledgerContext entries).NamesTypes (.ofDefinition (ledger entries)) where
  discovered := by
    have hledger : (ledger entries).identity.name = "Ledger" := rfl
    refine List.forall_mem_cons.mpr ⟨?_, List.forall_mem_singleton.mpr (by decide)⟩
    rw [Node.ofDefinition, hledger]
    decide
  parameters := List.forall_mem_singleton.mpr (by decide)

/-- An array and a list of entries are written alike, and so the two ledgers have one shape. -/
theorem shape_eq_ledgers : ∃ x x',
    (ledgerContext entryArray).writeModel (.ofDefinition (ledger entryArray)) = .ok x ∧
      (ledgerContext entryList).writeModel (.ofDefinition (ledger entryList)) = .ok x' ∧
      x.file.declarations.flatMap TypeScript.Declaration.lines =
        x'.file.declarations.flatMap TypeScript.Declaration.lines ∧
      ∃ s, (ledgerContext entryArray).shape (.ofDefinition (ledger entryArray)) = .ok s ∧
        (ledgerContext entryList).shape (.ofDefinition (ledger entryList)) = .ok s := by
  obtain ⟨x, hx, hdeclared⟩ := exists_ok_of_toOption (b := ledgerLines)
    (x := (ledgerContext entryArray).writeModel (.ofDefinition (ledger entryArray)))
    (f := fun x => x.file.declarations.flatMap TypeScript.Declaration.lines) (by decide +kernel)
  obtain ⟨x', hx', hdeclared'⟩ := exists_ok_of_toOption (b := ledgerLines)
    (x := (ledgerContext entryList).writeModel (.ofDefinition (ledger entryList)))
    (f := fun x => x.file.declarations.flatMap TypeScript.Declaration.lines) (by decide +kernel)
  have hsame := hdeclared.trans hdeclared'.symm
  exact ⟨x, x', hx, hx', hsame, Context.shape_eq_of_lines_eq hx hx' (namesTypes_ledger _)
    (namesTypes_ledger _) hsame⟩

end Shop

end ApiTypings
