import ApiTypings.TypeScript.Type

/-!
# Expressions of TypeScript

The expressions that the bodies of generated methods are made of, and their text.
-/

namespace ApiTypings.TypeScript

mutual

/-- An expression. -/
inductive Expr where
  | ident (name : String)
  | string (value : String)
  /-- A call, with type arguments if there are any. -/
  | call (callee : Expr) (typeArgs : List TypeExpr) (args : List Expr)
  /-- An object literal, its keys in order. -/
  | object (fields : List (String × Expr))
  | member (object : Expr) (property : String)
  /-- A template literal. -/
  | template (parts : List TemplatePart)

/-- A part of a template literal. -/
inductive TemplatePart where
  | text (value : String)
  /-- An expression whose value stands in the text. -/
  | hole (value : Expr)

end

namespace Expr

/-- A call without type arguments of the function of that name. -/
def apply (function : String) (args : List Expr) : Expr := call (ident function) [] args

end Expr

/-- Names or types between angle brackets, or nothing if there are none. -/
def angled (inside : List String) : String :=
  if inside.isEmpty then "" else "<" ++ Text.join ", " inside ++ ">"

mutual

/-- The written form of an expression. -/
def Expr.text : Expr → String
  | .ident name => name
  | .string value => quoted value
  | .call callee typeArgs args =>
    callee.text ++ angled (TypeExpr.texts typeArgs) ++
      "(" ++ Text.join ", " (Expr.texts args) ++ ")"
  | .object fields =>
    let inside := Expr.fieldTexts fields
    if inside.isEmpty then "\x7b\x7d" else "\x7b " ++ Text.join ", " inside ++ " \x7d"
  | .member object property => object.text ++ "." ++ property
  | .template parts => "`" ++ Text.join "" (TemplatePart.texts parts) ++ "`"

/-- The written forms of several expressions. -/
def Expr.texts : List Expr → List String
  | [] => []
  | e :: es => e.text :: Expr.texts es

/-- The written forms of the fields of an object literal. -/
def Expr.fieldTexts : List (String × Expr) → List String
  | [] => []
  | (name, value) :: fields => (key name ++ ": " ++ value.text) :: Expr.fieldTexts fields

/-- The written form of a part of a template literal. -/
def TemplatePart.written : TemplatePart → String
  | .text value => escapeTemplate value
  | .hole value => "$\x7b" ++ value.text ++ "\x7d"

/-- The written forms of several parts of a template literal. -/
def TemplatePart.texts : List TemplatePart → List String
  | [] => []
  | p :: ps => p.written :: TemplatePart.texts ps

end

/-- Expressions are written one by one. -/
theorem Expr.texts_eq (es : List Expr) : Expr.texts es = es.map Expr.text := by
  induction es with
  | nil => rfl
  | cons e es ih => simp [Expr.texts, ih]

/-- Parts of a template are written one by one. -/
theorem TemplatePart.texts_eq (ps : List TemplatePart) :
    TemplatePart.texts ps = ps.map TemplatePart.written := by
  induction ps with
  | nil => rfl
  | cons p ps ih => simp [TemplatePart.texts, ih]

end ApiTypings.TypeScript
