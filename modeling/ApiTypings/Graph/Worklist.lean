import ApiTypings.Graph.Discovery

/-!
# Discovery from a list of pending identities

A plain procedure for discovery: pending identities, each with the place that refers to it, are
taken from the front of a list, and those that a newly found node refers to are put in front of
the rest. It ends because each step either visits a defined identity for the first time or
shortens the list.
-/

namespace ApiTypings

/-- The identities that a node refers to, in order, each with its origin. -/
def Node.pending (n : Node) : List (Identity × Origin) :=
  n.references.flatMap fun (r, member) => r.identities.map (·, ⟨n.identity, member⟩)

namespace Worklist

open Discovery

/-- Takes pending identities from the front until none is left. -/
def run (c : Catalog) (pending : List (Identity × Origin)) (s : Discovery) :
    Except Unresolved Discovery :=
  match pending with
  | [] => .ok s
  | (id, origin) :: rest =>
    if hv : id ∈ s.visited then run c rest s
    else if id.isSystem then
      have := unvisited_le (c := c) (s := s) ⟨s.mark id, fun _ h => List.mem_cons_of_mem _ h⟩
      run c rest (s.mark id)
    else
      match hn : Node.resolve? c id with
      | none => .error (origin.unresolved id)
      | some node =>
        have := unvisited_mark_lt (Node.mem_identities_of_resolve? hn) hv
        run c (node.pending ++ rest) ((s.mark id).record node)
termination_by (unvisited c s, pending.length)
decreasing_by
  · exact Prod.Lex.right _ (by simp)
  · rcases Nat.lt_or_eq_of_le this with h | h
    · exact Prod.Lex.left _ _ h
    · exact h ▸ Prod.Lex.right _ (by simp)
  · exact Prod.Lex.left _ _ this

/-- The graph that the procedure finds from entry points. -/
def discover (c : Catalog) (entryPoints : List Identity) : Except Unresolved Graph :=
  (run c (entryPoints.map fun id => (id, ⟨id, .entryPoint⟩)) {}).map Discovery.graph

end Worklist

end ApiTypings
