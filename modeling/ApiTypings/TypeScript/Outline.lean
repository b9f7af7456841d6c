import ApiTypings.Proofs.Render.Mentions
import ApiTypings.TypeScript.Declaration

/-!
# The outline of a file

The lines of a file with the levels at which they belong, told by its declarations and not by the
braces that are written: imports and the first and last lines of declarations belong at the left
margin, members one level further in, and the statements of methods one more. The atoms of a file
are the texts that it was given: its names and keys, and what stands in literals and in the paths
of imports.
-/

namespace ApiTypings.TypeScript

/-! ## Atoms -/

mutual

/-- The texts that an expression was given, those of its types included. -/
def Expr.atoms : Expr → List String
  | .ident name => [name]
  | .string value => [value]
  | .call callee typeArgs args =>
    callee.atoms ++ TypeExpr.namesOfAll typeArgs ++ Expr.atomsOfAll args
  | .object fields => Expr.fieldAtoms fields
  | .member object property => object.atoms ++ [property]
  | .template parts => TemplatePart.atomsOfAll parts

/-- The texts that several expressions were given. -/
def Expr.atomsOfAll : List Expr → List String
  | [] => []
  | e :: es => e.atoms ++ Expr.atomsOfAll es

/-- The texts that the fields of an object literal were given, their keys first. -/
def Expr.fieldAtoms : List (String × Expr) → List String
  | [] => []
  | (name, value) :: fields => name :: (value.atoms ++ Expr.fieldAtoms fields)

/-- The texts that a part of a template literal was given. -/
def TemplatePart.atoms : TemplatePart → List String
  | .text value => [value]
  | .hole value => value.atoms

/-- The texts that several parts of a template literal were given. -/
def TemplatePart.atomsOfAll : List TemplatePart → List String
  | [] => []
  | p :: ps => p.atoms ++ TemplatePart.atomsOfAll ps

end

/-- The texts that a property was given. -/
def Property.atoms (p : Property) : List String := p.name :: p.type.names

/-- The texts that a parameter was given. -/
def Parameter.atoms (p : Parameter) : List String := p.name :: p.type.names

/-- The texts that a statement was given. -/
def Statement.atoms : Statement → List String
  | returns value => value.atoms

/-- The texts that a method was given. -/
def Method.atoms (m : Method) : List String :=
  m.name :: m.typeParams ++ m.params.flatMap Parameter.atoms ++
    m.result.toList.flatMap TypeExpr.names ++ (m.body.getD []).flatMap Statement.atoms

/-- The texts that the members of a declaration were given, those of its base included. -/
def DeclarationKind.atoms : DeclarationKind → List String
  | interface base properties methods =>
    base.toList.flatMap TypeExpr.names ++ properties.flatMap Property.atoms ++
      methods.flatMap Method.atoms
  | enumeration members => members
  | stringWrapper => []
  | classType methods => methods.flatMap Method.atoms

/-- The texts that a declaration was given. -/
def Declaration.atoms (d : Declaration) : List String := d.name :: d.typeParams ++ d.kind.atoms

/-- The texts that an import was given. -/
def Import.atoms : Import → List String
  | named items source => source :: items
  | reference path => [path]

/-- The texts that a file was given. -/
def SourceFile.atoms (file : SourceFile) : List String :=
  file.imports.flatMap Import.atoms ++ file.declarations.flatMap Declaration.atoms

/-! ## Levels -/

/-- The lines of a method, each with its level. -/
def Method.outline (m : Method) : List (Nat × String) :=
  match m.body with
  | none => [(1, m.signature ++ ";")]
  | some [] => [(1, m.signature ++ " \x7b\x7d")]
  | some body =>
    [(1, m.signature ++ " \x7b")] ++ body.map (fun s => (2, s.text)) ++ [(1, "\x7d")]

/-- The lines between the braces of a declaration, each with its level. -/
def Declaration.outlineInside (d : Declaration) : List (Nat × String) :=
  match d.kind with
  | .interface _ properties methods =>
    properties.map (fun p => (1, p.text)) ++ methods.flatMap Method.outline
  | .enumeration members => members.map fun m => (1, m ++ ",")
  | .stringWrapper => []
  | .classType methods => methods.flatMap Method.outline

/-- The lines of a declaration, each with its level. -/
def Declaration.outline (d : Declaration) : List (Nat × String) :=
  match d.kind with
  | .stringWrapper => [(0, d.head ++ " \x7b\x7d")]
  | _ => [(0, d.head ++ " \x7b")] ++ d.outlineInside ++ [(0, "\x7d")]

namespace SourceFile

/-- Puts the outline of a declaration after earlier lines, with an empty line between. -/
def appendOutline (earlier : List (Nat × String)) (d : Declaration) : List (Nat × String) :=
  (if earlier.isEmpty then [] else earlier ++ [(0, "")]) ++ d.outline

/-- The lines of a file, each with its level. -/
def outline (file : SourceFile) : List (Nat × String) :=
  file.declarations.foldl appendOutline (file.imports.map fun i => (0, i.text))

end SourceFile

end ApiTypings.TypeScript
