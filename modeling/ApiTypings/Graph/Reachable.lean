import ApiTypings.Graph.Node

/-!
# Reachable identities

The least set of identities that holds the entry points and, for every member that is defined and
lies outside the platform's library, all identities that occur in its references. Identities of
the library are members as well, but nothing is reached through them.
-/

namespace ApiTypings

/-- `Refers c a b` says that `a` is defined outside the library and names `b` in a reference. -/
def Refers (c : Catalog) (a b : Identity) : Prop :=
  a.isSystem = false ∧ ∃ n, Node.resolve? c a = some n ∧ ∃ r ∈ n.references, b ∈ r.1.identities

/-- The identities that entry points lead to. -/
inductive Reachable (c : Catalog) (entryPoints : List Identity) : Identity → Prop where
  | entry {id} : id ∈ entryPoints → Reachable c entryPoints id
  | step {a b} : Reachable c entryPoints a → Refers c a b → Reachable c entryPoints b

end ApiTypings
