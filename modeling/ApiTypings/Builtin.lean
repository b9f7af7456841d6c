import ApiTypings.Identity

/-!
# Types of the host platform

Types of the platform's own library are never written out; a use of one turns straight into a
TypeScript form. A library type that is missing from the table has no form at all.
-/

namespace ApiTypings

/-- How a type of the platform's library appears in TypeScript. -/
inductive BuiltinShape where
  | number
  | string
  | boolean
  | date
  /-- No static shape. -/
  | unknown
  | void
  /-- A sequence of its argument. -/
  | collection
  /-- A keyed collection, of which the second argument is the value. -/
  | dictionary
  /-- Its argument or nothing. -/
  | nullable
  /-- The result of an asynchronous action: its argument, if it has one. -/
  | task
  deriving DecidableEq, Repr

namespace BuiltinShape

/-- The library types that have a form, by their displayed identity. -/
def table : List (String × BuiltinShape) := [
  ("System.Byte", number), ("System.SByte", number), ("System.Int16", number),
  ("System.UInt16", number), ("System.Int32", number), ("System.UInt32", number),
  ("System.Int64", number), ("System.UInt64", number), ("System.Single", number),
  ("System.Double", number), ("System.Decimal", number),
  ("System.String", string), ("System.Char", string), ("System.Guid", string),
  ("System.TimeSpan", string), ("System.Uri", string),
  ("System.Boolean", boolean),
  ("System.DateTime", date), ("System.DateTimeOffset", date),
  ("System.Object", unknown), ("System.Void", void),
  ("System.Nullable`1", nullable),
  ("System.Collections.Generic.List`1", collection),
  ("System.Collections.Generic.IList`1", collection),
  ("System.Collections.Generic.ICollection`1", collection),
  ("System.Collections.Generic.IEnumerable`1", collection),
  ("System.Collections.Generic.IReadOnlyList`1", collection),
  ("System.Collections.Generic.IReadOnlyCollection`1", collection),
  ("System.Collections.Generic.HashSet`1", collection),
  ("System.Collections.Generic.ISet`1", collection),
  ("System.Collections.Generic.Dictionary`2", dictionary),
  ("System.Collections.Generic.IDictionary`2", dictionary),
  ("System.Collections.Generic.IReadOnlyDictionary`2", dictionary),
  ("System.Threading.Tasks.Task", task), ("System.Threading.Tasks.Task`1", task)]

/-- The name of a shape. -/
def name : BuiltinShape → String
  | number => "Number"
  | string => "String"
  | boolean => "Boolean"
  | date => "Date"
  | unknown => "Unknown"
  | void => "Void"
  | collection => "Collection"
  | dictionary => "Dictionary"
  | nullable => "Nullable"
  | task => "Task"

end BuiltinShape

/-- The shape of a library type, found by the text that displays its identity. -/
def Identity.builtinShape? (id : Identity) : Option BuiltinShape :=
  BuiltinShape.table.lookup id.display

end ApiTypings
