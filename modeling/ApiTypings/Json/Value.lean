import ApiTypings.Decimal.Shortest
import ApiTypings.Text.Digits

/-!
# Values of JSON documents

A document as it is written: fields keep their order and may repeat a name, numbers keep their
digits. A string whose escapes name half a surrogate pair has no text, and a number may lie
outside the range of binary fractions; a document is proper when it has neither and is not
nested too deeply.
-/

namespace ApiTypings.Json

/-- A number as it is written. -/
structure Number where
  negative : Bool
  /-- The digits before the point. -/
  whole : List Char
  /-- The digits after the point. -/
  fraction : List Char
  exponent : Option Int
  deriving DecidableEq, Repr, Inhabited

/-- A value of a document. -/
inductive Value where
  | null
  | bool (value : Bool)
  | number (value : Number)
  /-- A string, with its text if it has one. -/
  | string (text : Option String)
  | array (items : List Value)
  | object (fields : List (Option String × Value))
  deriving Repr, Inhabited

/-- How many arrays and objects may stand inside each other. -/
def maxDepth : Nat := 127

namespace Number

/-- The integer that is written without fraction and exponent, if it is one that 64 bits hold
with or without a sign. A zero with a sign is no integer. -/
def integer? (n : Number) : Option Int :=
  let value := Text.decimal n.whole
  if !n.fraction.isEmpty || n.exponent.isSome then none
  else if n.negative then
    if 0 < value ∧ value ≤ UInt64.size / 2 then some (-(value : Int)) else none
  else if value < UInt64.size then some value else none

/-- The number without its sign, cut to the digits that 64 bits hold. Digits are dropped before
the point and after it, each time from the first that does not fit; those dropped before the
point count in the power of ten. -/
def magnitude (n : Number) : Decimal.Scientific :=
  let (digits, dropped) := Text.appendBelow UInt64.size 0 n.whole
  let (digits, ignored) := Text.appendBelow UInt64.size digits n.fraction
  ⟨digits, n.exponent.getD 0 + dropped.length - (n.fraction.length - ignored.length)⟩

/-- A number from `10 ^ -5` on and below `10 ^ 16` is written positionally. -/
def layout : Decimal.Notation := ⟨-5, 15⟩

/-- The text of the binary fraction that the number is read as, if it is in range. -/
def float? (n : Number) : Option String :=
  n.magnitude.binary?.map fun b =>
    (if n.negative then "-" else "") ++ b.shortest.text layout

/-- Whether the number is an integer of 64 bits or in the range of binary fractions. -/
def isProper (n : Number) : Bool := n.integer?.isSome || n.magnitude.binary?.isSome

end Number

namespace Value

mutual

/-- Whether every string has a text, every number is in range and nothing is nested deeper than
`depth`. -/
def properWithin (depth : Nat) : Value → Bool
  | null => true
  | bool _ => true
  | number n => n.isProper
  | string text => text.isSome
  | array items =>
    match depth with
    | 0 => false
    | depth + 1 => allProper depth items
  | object fields =>
    match depth with
    | 0 => false
    | depth + 1 => fieldsProper depth fields

/-- `properWithin` for every item of an array. -/
def allProper (depth : Nat) : List Value → Bool
  | [] => true
  | v :: vs => v.properWithin depth && allProper depth vs

/-- `properWithin` for every field of an object, whose name must have a text as well. -/
def fieldsProper (depth : Nat) : List (Option String × Value) → Bool
  | [] => true
  | (name, v) :: fields => name.isSome && v.properWithin depth && fieldsProper depth fields

end

/-- Whether the value is proper. -/
def isProper (v : Value) : Bool := v.properWithin maxDepth

end Value

end ApiTypings.Json
