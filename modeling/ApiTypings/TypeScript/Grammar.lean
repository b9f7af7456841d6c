import ApiTypings.Text.Blank
import ApiTypings.TypeScript.Type

/-!
# The grammar of type expressions

How the language reads a type expression, stated without the writer. A text is cut into words and
marks; blanks separate words and mean nothing else. Words and marks derive a type expression:

    written   := operand ("|" operand)*
    operand   := atom ("[" "]")*
    atom      := "(" written ")" | word arguments?
    arguments := "<" written ("," written)* ">"

So `[]` binds tighter than `|`, and parentheses group. Which of the characters beyond ASCII a name
may hold is left open: all but the blanks.
-/

namespace ApiTypings.TypeScript

/-- The characters of a name. -/
def isNameChar (c : Char) : Bool := isPlainChar c || (128 ≤ c.toNat && !Text.isBlank c)

/-- A character of a name that may stand first. -/
def isNameStart (c : Char) : Bool := isNameChar c && !c.isDigit

/-- Whether a text is a name. -/
def isName : List Char → Bool
  | [] => false
  | c :: cs => isNameStart c && cs.all isNameChar

/-- The names of types that belong to the language: the keywords of the primitive types, and the
type that records have. -/
def languageTypes : List String :=
  ["string", "number", "boolean", "null", "void", "unknown", "Record"]

/-- A name that a type can be known by. -/
structure IsTypeName (name : String) : Prop where
  isName : isName name.toList = true
  not_language : name ∉ languageTypes

instance (name : String) : Decidable (IsTypeName name) :=
  decidable_of_iff (isName name.toList = true ∧ name ∉ languageTypes)
    ⟨fun h => ⟨h.1, h.2⟩, fun h => ⟨h.1, h.2⟩⟩

namespace Grammar

/-- The marks of type expressions. -/
def marks : List Char := ['(', ')', '[', ']', '<', '>', ',', '|']

/-- A word or a mark. -/
inductive Token where
  | word (name : String)
  | mark (c : Char)
  deriving DecidableEq, Repr

/-- The words and the marks of a text, each word as long as it can be; nothing if some character
belongs to neither. -/
def tokens : List Char → Option (List Token)
  | [] => some []
  | c :: cs =>
    if isNameStart c then
      (tokens (cs.dropWhile isNameChar)).map
        (.word (String.ofList (c :: cs.takeWhile isNameChar)) :: ·)
    else if Text.isBlank c then tokens cs
    else if c ∈ marks then (tokens cs).map (.mark c :: ·)
    else none
termination_by cs => cs.length
decreasing_by
  · exact Nat.lt_succ_of_le (Text.length_dropWhile_le _ _)
  · exact Nat.lt_succ_self _
  · exact Nat.lt_succ_self _

/-- The type that a word with arguments stands for. -/
inductive Denotes : String → List TypeExpr → TypeExpr → Prop where
  | primitive (p : Primitive) : Denotes p.text [] (.primitive p)
  | record (key value : TypeExpr) : Denotes "Record" [key, value] (.record key value)
  | ref {name} : IsTypeName name → Denotes name [] (.ref name)
  | generic {name args} : IsTypeName name → args ≠ [] → Denotes name args (.generic name args)

/-- A single operand is a type of its own; several are the alternatives of a union. -/
def oneOf : List TypeExpr → TypeExpr
  | [t] => t
  | ts => .union ts

/-- So many pairs of brackets. -/
def brackets : Nat → List Token
  | 0 => []
  | n + 1 => .mark '[' :: .mark ']' :: brackets n

/-- The array that so many pairs of brackets make of a type. -/
def arrays : Nat → TypeExpr → TypeExpr
  | 0, t => t
  | n + 1, t => arrays n (.array t)

mutual

/-- A type expression. -/
inductive Written : List Token → TypeExpr → Prop where
  | of {ts us} : Operands ts us → Written ts (oneOf us)

/-- Operands with `|` between them. -/
inductive Operands : List Token → List TypeExpr → Prop where
  | last {ts t} : Operand ts t → Operands ts [t]
  | more {ts rest t us} : Operand ts t → Operands rest us →
      Operands (ts ++ .mark '|' :: rest) (t :: us)

/-- An atom and the brackets after it. -/
inductive Operand : List Token → TypeExpr → Prop where
  | of {ts t} (n : Nat) : Atom ts t → Operand (ts ++ brackets n) (arrays n t)

/-- A type expression in parentheses, or a word with or without arguments. -/
inductive Atom : List Token → TypeExpr → Prop where
  | group {ts t} : Written ts t → Atom (.mark '(' :: (ts ++ [.mark ')'])) t
  | word {name t} : Denotes name [] t → Atom [.word name] t
  | applied {name ts args t} : Arguments ts args → Denotes name args t →
      Atom (.word name :: .mark '<' :: ts) t

/-- The arguments of a word with the `>` that ends them. -/
inductive Arguments : List Token → List TypeExpr → Prop where
  | last {ts t} : Written ts t → Arguments (ts ++ [.mark '>']) [t]
  | more {ts rest t args} : Written ts t → Arguments rest args →
      Arguments (ts ++ .mark ',' :: rest) (t :: args)

end

end Grammar

/-- A text is read as a type expression. -/
def Reads (text : String) (t : TypeExpr) : Prop :=
  ∃ ts, Grammar.tokens text.toList = some ts ∧ Grammar.Written ts t

end ApiTypings.TypeScript
