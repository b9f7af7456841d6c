import ApiTypings.Catalog.Document
import Mathlib.Data.List.Forall2

/-!
# What documents describe

What a document describes does not depend on how it is written. A record may be given as an object
with its fields in any order, in which a field with its default value may be left out and fields
that the record does not have may stand anywhere, or as an array of its fields in their declared
order, which may stop before fields that all have their default values. A document as a whole has
no other fields than its own.
-/

namespace ApiTypings.Document

open Json (Value)

variable {α β : Type}

/-- Which values show which `α`. -/
abbrev Form (α : Type) := α → Value → Prop

/-- A string shows its text. -/
def textForm : Form String := fun text v => v = .string (some text)

/-- A truth value shows itself. -/
def truthForm : Form Bool := fun b v => v = .bool b

/-- A string shows the reference that its text is read as. -/
def referenceForm : Form Reference := fun r v =>
  ∃ text, v = .string (some text) ∧ Reference.parse text = .ok r

/-- An array shows what its items show. -/
def listForm (item : Form α) : Form (List α) := fun as v =>
  ∃ items, v = .array items ∧ List.Forall₂ item as items

/-- `null` shows that there is nothing. -/
def optionForm (inner : Form α) : Form (Option α)
  | none, v => v = .null
  | some a, v => inner a v

/-- A variant is shown by its name, or by an object whose one field has that name and is `null`. -/
def variantForm (name : α → String) : Form α := fun a v =>
  v = .string (some (name a)) ∨ v = .object [(some (name a), .null)]

/-- A field of the records that show an `α`. -/
structure Field (α : Type) where
  name : String
  /-- Which values show the field of which `α`. -/
  form : Form α
  /-- For which `α` the field may be left out. -/
  IsDefault : α → Prop

/-- A field that may not be left out. -/
def Field.required (name : String) (get : α → β) (form : Form β) : Field α where
  name := name
  form a := form (get a)
  IsDefault _ := False

/-- A field that may be left out for a default. -/
def Field.defaulted (name : String) (get : α → β) (form : Form β) (value : β) : Field α where
  name := name
  form a := form (get a)
  IsDefault a := get a = value

/-- The values of the members that have a name. -/
def valuesOf (name : String) (members : List (Option String × Value)) : List Value :=
  (members.filter (·.1 = some name)).map Prod.snd

/-- Which values show an `α` with certain fields. -/
inductive RecordForm (fields : List (Field α)) (a : α) : Value → Prop where
  /-- Each field is shown once, or is left out for its default. All names have a text; where they
  name no field, the members may be anything. -/
  | object {members : List (Option String × Value)}
    (texts : ∀ m ∈ members, m.1 ≠ none)
    (shown : ∀ f ∈ fields, (∃ v, valuesOf f.name members = [v] ∧ f.form a v) ∨
      (valuesOf f.name members = [] ∧ f.IsDefault a)) :
    RecordForm fields a (.object members)
  /-- The fields up to some point are shown in order and the others are left out. -/
  | array {given omitted : List (Field α)} {items : List Value}
    (split : given ++ omitted = fields)
    (shown : List.Forall₂ (fun f v => f.form a v) given items)
    (defaults : ∀ f ∈ omitted, f.IsDefault a) :
    RecordForm fields a (.array items)

/-- Which values show a property. -/
def propertyForm : Form PropertyDef := RecordForm [
  .required "name" (·.name) textForm,
  .required "type" (·.type) referenceForm,
  .defaulted "indexer" (·.indexer) truthForm false]

/-- Which values show a parameter. -/
def parameterForm : Form ParameterDef := RecordForm [
  .required "name" (·.name) textForm,
  .required "type" (·.type) referenceForm]

/-- Which values show an action. -/
def actionForm : Form ActionDef := RecordForm [
  .required "name" (·.name) textForm,
  .defaulted "method" (·.verb) (variantForm Verb.name) .get,
  .defaulted "route" (·.route) (optionForm textForm) none,
  .defaulted "returns" (·.returns) referenceForm .void,
  .defaulted "parameters" (·.parameters) (listForm parameterForm) []]

/-- Which values show a definition. -/
def definitionForm : Form Definition := RecordForm [
  .defaulted "namespace" (·.ns) textForm "",
  .required "name" (·.name) textForm,
  .required "kind" (·.kind) (variantForm TypeKind.name),
  .defaulted "genericParameters" (·.genericParameters) (listForm textForm) [],
  .defaulted "baseType" (·.baseType) (optionForm referenceForm) none,
  .defaulted "properties" (·.properties) (listForm propertyForm) [],
  .defaulted "enumMembers" (·.enumMembers) (listForm textForm) [],
  .defaulted "controller" (·.controller) truthForm false,
  .defaulted "actions" (·.actions) (listForm actionForm) []]

/-- Which values show a list of definitions as a document: an object whose one field is `types`,
or an array of its value. -/
def documentForm : Form (List Definition) := fun ds v =>
  ∃ types, listForm definitionForm ds types ∧
    (v = .object [(some "types", types)] ∨ v = .array [types])

end ApiTypings.Document
