import ApiTypings.Json.Reader
import ApiTypings.Reference.Reader
import ApiTypings.Text.Shown

/-!
# Decoding values of documents

A decoder turns a value into something of the domain or says what is wrong with it. A record is
given as an object, whose fields may come in any order and are taken in the order of the
document, or as an array of its fields in their declared order. The first problem met is the one
that is reported.
-/

namespace ApiTypings.Document

open Json (Value)

/-- What can be wrong with a value. -/
inductive Fault where
  /-- The text is no well-formed document, or an array has the wrong number of items. -/
  | malformed
  | wrongType (found : Value) (expected : String)
  | missingField (name : String)
  | duplicateField (name : String)
  | unknownField (name : String) (expected : String)
  | unknownVariant (name : String) (expected : List String)
  /-- A text that is no reference. -/
  | reference (fault : ReferenceFault)
  deriving Repr

/-- How a message calls a value. -/
def describe : Value → String
  | .null => "null"
  | .bool true => "boolean `true`"
  | .bool false => "boolean `false`"
  | .number n =>
    match n.integer? with
    | some value => "integer `" ++ toString value ++ "`"
    | none => "floating point `" ++ n.float?.getD "" ++ "`"
  | .string text => "string " ++ Text.shown (text.getD "")
  | .array _ => "sequence"
  | .object _ => "map"

/-- The wording of a fault. -/
def Fault.message : Fault → String
  | malformed => "the text is not a well-formed document"
  | wrongType found expected => "invalid type: " ++ describe found ++ ", expected " ++ expected
  | missingField name => "missing field `" ++ name ++ "`"
  | duplicateField name => "duplicate field `" ++ name ++ "`"
  | unknownField name expected =>
    "unknown field `" ++ name ++ "`, expected `" ++ expected ++ "`"
  | unknownVariant name expected =>
    "unknown variant `" ++ name ++ "`, expected one of " ++
      Text.join ", " (expected.map fun e => "`" ++ e ++ "`")
  | reference fault => fault.message

/-- Turns a value into an `α`, or says what is wrong with it. -/
abbrev Decoder (α : Type) := Value → Except Fault α

/-- Decodes a string. -/
def string : Decoder String
  | .string (some text) => .ok text
  | .string none => .error .malformed
  | v => .error (.wrongType v "a string")

/-- Decodes a truth value. -/
def boolean : Decoder Bool
  | .bool b => .ok b
  | v => .error (.wrongType v "a boolean")

/-- Decodes an array item by item. -/
def sequence {α : Type} (item : Decoder α) : Decoder (List α)
  | .array items => items.mapM item
  | v => .error (.wrongType v "a sequence")

/-- Decodes `null` to nothing. -/
def optional {α : Type} (inner : Decoder α) : Decoder (Option α)
  | .null => .ok none
  | v => (inner v).map some

/-- Finds the variant of a name. -/
def variantOf {α : Type} (all : List α) (name : α → String) (text : String) : Except Fault α :=
  match all.find? (name · = text) with
  | some a => .ok a
  | none => .error (.unknownVariant text (all.map name))

/-- Decodes a variant: its name, or an object whose one field has that name and is `null`. -/
def variant {α : Type} (all : List α) (name : α → String) : Decoder α
  | .string (some text) => variantOf all name text
  | .object ((some text, v) :: rest) => do
    let a ← variantOf all name text
    match v with
    | .null => if rest.isEmpty then return a else .error .malformed
    | v => .error (.wrongType v "unit")
  | _ => .error .malformed

/-- How to decode a record: the decoded fields are collected in a state `σ` and made into an `α`
at the end. -/
structure Record (σ α : Type) where
  /-- What a message calls the record. -/
  expected : String
  /-- The fields in their declared order; each adds its value to the state. -/
  fields : List (String × (σ → Value → Except Fault σ))
  /-- The state before any field. -/
  start : σ
  /-- Fills in defaults, or names the first field that is missing. -/
  finish : σ → Except Fault α
  /-- The one field that is allowed, when others are refused rather than ignored. -/
  only : Option String := none

/-- Decodes the value of a field that may be given once. -/
def once {α : Type} (name : String) (decoder : Decoder α) (slot : Option α) (v : Value) :
    Except Fault (Option α) :=
  match slot with
  | some _ => .error (.duplicateField name)
  | none => (decoder v).map some

/-- The value of a field that has no default. -/
def required {α : Type} (name : String) (slot : Option α) : Except Fault α :=
  match slot with
  | some a => .ok a
  | none => .error (.missingField name)

namespace Record

variable {σ α : Type}

/-- Takes one field of an object. -/
def takeField (r : Record σ α) (s : σ) : Option String × Value → Except Fault σ
  | (none, _) => .error .malformed
  | (some name, v) =>
    match r.fields.lookup name, r.only with
    | some take, _ => take s v
    | none, some expected => .error (.unknownField name expected)
    | none, none => .ok s

/-- Takes the items of an array as the fields in their declared order. -/
def takeItems (s : σ) : List (String × (σ → Value → Except Fault σ)) → List Value → Except Fault σ
  | _, [] => .ok s
  | [], _ :: _ => .error .malformed
  | (_, take) :: fields, v :: vs => do takeItems (← take s v) fields vs

/-- Decodes a record given as an object or as an array. -/
def decode (r : Record σ α) : Decoder α
  | .object fields => do r.finish (← fields.foldlM r.takeField r.start)
  | .array items => do
    let s ← takeItems r.start r.fields items
    (r.finish s).mapError fun _ => .malformed
  | v => .error (.wrongType v r.expected)

end Record

end ApiTypings.Document
