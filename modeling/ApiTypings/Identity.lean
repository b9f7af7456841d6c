import ApiTypings.Text.Cut

/-!
# Identities of type definitions

An identity names an open type definition by namespace, name and number of generic parameters.
All instantiations of a generic type share the identity of their definition. Identities are
shown as `Namespace.Name`, followed by a grave accent and the arity when there are parameters,
and they are ordered by namespace, then name, then arity.
-/

namespace ApiTypings

/-- Namespace, name and number of generic parameters of a type definition. -/
structure Identity where
  /-- Dotted namespace, empty for a type that stands in none. -/
  ns : String
  /-- Simple name; a nested type joins the names of its owners with `+`. -/
  name : String
  /-- Number of generic parameters. -/
  arity : Nat
  deriving DecidableEq, Repr, Inhabited

namespace Identity

/-- The identity whose namespace ends at the last dot of a dotted name. -/
def ofQualified (qualified : String) (arity : Nat) : Identity :=
  match Text.cutLast '.' qualified.toList with
  | some (ns, name) => ⟨String.ofList ns, String.ofList name, arity⟩
  | none => ⟨"", qualified, arity⟩

/-- `Namespace.Name`, without the arity. -/
def qualifiedName (id : Identity) : String :=
  if id.ns = "" then id.name else id.ns ++ "." ++ id.name

/-- The qualified name, with the arity after a grave accent if there are parameters. -/
def display (id : Identity) : String :=
  if id.arity = 0 then id.qualifiedName else id.qualifiedName ++ "`" ++ toString id.arity

/-- Whether the type belongs to the host platform's own library, the namespace `System`. -/
def isSystem (id : Identity) : Bool :=
  id.ns == "System" || Text.startsWith "System.".toList id.ns.toList

instance : Ord Identity where
  compare a b := (compare a.ns b.ns).then ((compare a.name b.name).then (compare a.arity b.arity))

/-- Identities in order; equal ones keep their places. -/
def sort (ids : List Identity) : List Identity :=
  ids.mergeSort fun a b => (compare a b).isLE

end Identity

end ApiTypings
