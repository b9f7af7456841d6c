import ApiTypings.TypeScript.Names

/-!
# Type expressions of TypeScript

The type expressions that declarations are written with, and their text. The postfix `[]` binds
tighter than `|`, so an array of a union is the one form that needs parentheses.
-/

namespace ApiTypings.TypeScript

/-- The types that have a name of their own in the language. -/
inductive Primitive where
  | string
  | number
  | boolean
  | null
  | void
  | unknown
  deriving DecidableEq, Repr

/-- The keyword of a primitive type. -/
def Primitive.text : Primitive → String
  | string => "string"
  | number => "number"
  | boolean => "boolean"
  | null => "null"
  | void => "void"
  | unknown => "unknown"

/-- A type expression. -/
inductive TypeExpr where
  | primitive (type : Primitive)
  | array (element : TypeExpr)
  /-- One of several alternatives. -/
  | union (alternatives : List TypeExpr)
  /-- An object whose keys and values each have one type. -/
  | record (key value : TypeExpr)
  /-- A type known by its name. -/
  | ref (name : String)
  /-- A generic type with its arguments. -/
  | generic (name : String) (args : List TypeExpr)
  deriving Repr, Inhabited

namespace TypeExpr

/-- The type or `null`. -/
def orNull (inner : TypeExpr) : TypeExpr := union [inner, primitive .null]

/-- An object whose keys are strings. -/
def stringRecord (value : TypeExpr) : TypeExpr := record (primitive .string) value

/-- A type with its arguments; without any, the bare name. -/
def ofName (name : String) (args : List TypeExpr) : TypeExpr :=
  if args.isEmpty then ref name else generic name args

/-- Whether the expression is a union. -/
def isUnion : TypeExpr → Bool
  | union _ => true
  | _ => false

/-- Whether the expression is the type `null`. -/
def isNull : TypeExpr → Bool
  | primitive .null => true
  | _ => false

/-- Whether the expression is a union with `null` among its alternatives. -/
def allowsNull : TypeExpr → Bool
  | union alternatives => alternatives.any isNull
  | _ => false

mutual

/-- The written form of a type expression. -/
def text : TypeExpr → String
  | primitive type => type.text
  | array element => if element.isUnion then "(" ++ element.text ++ ")[]" else element.text ++ "[]"
  | union alternatives => Text.join " | " (texts alternatives)
  | record key value => "Record<" ++ key.text ++ ", " ++ value.text ++ ">"
  | ref name => name
  | generic name args => name ++ "<" ++ Text.join ", " (texts args) ++ ">"

/-- The written forms of several type expressions. -/
def texts : List TypeExpr → List String
  | [] => []
  | t :: ts => t.text :: texts ts

end

/-- Types are written one by one. -/
theorem texts_eq (ts : List TypeExpr) : texts ts = ts.map text := by
  induction ts with
  | nil => rfl
  | cons t ts ih => simp [texts, ih]

end TypeExpr

end ApiTypings.TypeScript
