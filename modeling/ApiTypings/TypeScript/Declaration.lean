import ApiTypings.TypeScript.Expression

/-!
# Declarations of TypeScript

Interfaces, enums and classes, the imports of a file, and the lines they are written in. Lines
carry no indentation; that is the business of the layout.
-/

namespace ApiTypings.TypeScript

/-- A property of an interface. -/
structure Property where
  name : String
  type : TypeExpr
  /-- Whether the property may be missing. -/
  optional : Bool := false

/-- A parameter of a method. -/
structure Parameter where
  name : String
  type : TypeExpr
  /-- Whether the argument may be left out. -/
  optional : Bool := false

/-- A statement of a method body. -/
inductive Statement where
  | returns (value : Expr)

/-- A method of a class, or the signature of one in an interface. -/
structure Method where
  name : String
  /-- Whether the method is written with the modifier `public`. -/
  isPublic : Bool := false
  typeParams : List String := []
  params : List Parameter := []
  result : Option TypeExpr := none
  /-- The statements, or nothing for a signature. -/
  body : Option (List Statement) := none

/-- How a file reaches the declarations of another. -/
inductive Import where
  /-- Names imported from a module. -/
  | named (items : List String) (source : String)
  /-- A reference directive to a file of global declarations. -/
  | reference (path : String)
  deriving DecidableEq, Repr

/-- What a declaration declares. -/
inductive DeclarationKind where
  | interface (base : Option TypeExpr) (properties : List Property) (methods : List Method)
  | enumeration (members : List String)
  /-- A class without members of its own that extends `String`. -/
  | stringWrapper
  | classType (methods : List Method)

/-- A declaration at the top level of a file. -/
structure Declaration where
  name : String
  typeParams : List String := []
  /-- Whether the declaration carries the keyword `export`. -/
  exported : Bool := false
  kind : DeclarationKind

/-- A whole file: its imports and its declarations. -/
structure SourceFile where
  imports : List Import := []
  declarations : List Declaration := []

/-- The mark of something that may be missing. -/
def optionalMark (optional : Bool) : String := if optional then "?" else ""

/-- The line of a property. -/
def Property.text (p : Property) : String :=
  key p.name ++ optionalMark p.optional ++ ": " ++ p.type.text ++ ";"

/-- The written form of a parameter. -/
def Parameter.text (p : Parameter) : String :=
  p.name ++ optionalMark p.optional ++ ": " ++ p.type.text

/-- The line of a statement. -/
def Statement.text : Statement → String
  | returns value => "return " ++ value.text ++ ";"

namespace Method

/-- The part of a method before its body. -/
def signature (m : Method) : String :=
  (if m.isPublic then "public " else "") ++ m.name ++ angled m.typeParams ++ "(" ++
    Text.join ", " (m.params.map Parameter.text) ++ ")" ++
    (match m.result with
      | some type => ": " ++ type.text
      | none => "")

/-- The lines of a method: one for a signature or an empty body, else one a statement as well. -/
def lines (m : Method) : List String :=
  match m.body with
  | none => [m.signature ++ ";"]
  | some [] => [m.signature ++ " \x7b\x7d"]
  | some body => [m.signature ++ " \x7b"] ++ body.map Statement.text ++ ["\x7d"]

end Method

namespace Declaration

/-- The keyword that makes a declaration visible outside its module. -/
def modifier (d : Declaration) : String := if d.exported then "export " else ""

/-- The first line of a declaration up to its brace. -/
def head (d : Declaration) : String :=
  match d.kind with
  | .interface base _ _ =>
    d.modifier ++ "interface " ++ d.name ++ angled d.typeParams ++
      (match base with
        | some type => " extends " ++ type.text
        | none => "")
  | .enumeration _ => d.modifier ++ "enum " ++ d.name
  | .stringWrapper => d.modifier ++ "class " ++ d.name ++ angled d.typeParams ++ " extends String"
  | .classType _ => d.modifier ++ "class " ++ d.name ++ angled d.typeParams

/-- The lines between the braces of a declaration. -/
def inside (d : Declaration) : List String :=
  match d.kind with
  | .interface _ properties methods =>
    properties.map Property.text ++ methods.flatMap Method.lines
  | .enumeration members => members.map (· ++ ",")
  | .stringWrapper => []
  | .classType methods => methods.flatMap Method.lines

/-- The lines of a declaration; a wrapper fits on one. -/
def lines (d : Declaration) : List String :=
  match d.kind with
  | .stringWrapper => [d.head ++ " \x7b\x7d"]
  | _ => [d.head ++ " \x7b"] ++ d.inside ++ ["\x7d"]

end Declaration

/-- The line of an import. -/
def Import.text : Import → String
  | named items source =>
    "import \x7b " ++ Text.join ", " items ++ " \x7d from \"" ++ source ++ "\";"
  | reference path => "/// <reference path=\"" ++ path ++ "\" />"

namespace SourceFile

/-- Puts a declaration after earlier lines, with an empty line between. -/
def append (earlier : List String) (d : Declaration) : List String :=
  (if earlier.isEmpty then [] else earlier ++ [""]) ++ d.lines

/-- The lines of a file: imports, then the declarations with an empty line before each. -/
def lines (file : SourceFile) : List String :=
  file.declarations.foldl append (file.imports.map Import.text)

end SourceFile

end ApiTypings.TypeScript
