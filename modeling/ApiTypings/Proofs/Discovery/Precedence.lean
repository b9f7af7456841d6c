import ApiTypings.Proofs.Discovery.Simulation
import ApiTypings.Proofs.Success

/-!
# The order of discovery

Discovery finds the same nodes in the same order as the worklist, and fails at the same reference.
A pending identity was put on the list by an entry point or by a node found before, so each node
that is found is an entry point or comes after one that refers to it.
-/

namespace ApiTypings

/-- A node names an identity in one of its references. -/
def Node.RefersTo (n : Node) (id : Identity) : Prop := ∃ r ∈ n.references, id ∈ r.1.identities

/-- Why an identity is met when `found` are the nodes found so far: it is an entry point, or one of
the nodes refers to it. -/
def LedTo (entryPoints : List Identity) (found : List Node) (id : Identity) : Prop :=
  id ∈ entryPoints ∨ ∃ m ∈ found, m.RefersTo id

/-- Each node is an entry point or comes after a node that refers to it. -/
def Preceded (entryPoints : List Identity) (nodes : List Node) : Prop :=
  ∀ i n, nodes[i]? = some n → LedTo entryPoints (nodes.take i) n.identity

variable {entryPoints : List Identity} {found : List Node}

/-- What has been led to still is when more is found. -/
theorem LedTo.append {id : Identity} (h : LedTo entryPoints found id) (more : List Node) :
    LedTo entryPoints (found ++ more) id := by
  obtain hid | ⟨m, hm, hr⟩ := h
  · exact Or.inl hid
  · exact Or.inr ⟨m, List.mem_append_left _ hm, hr⟩

/-- A node that was led to may follow those before it. -/
theorem Preceded.append_singleton {n : Node} (h : Preceded entryPoints found)
    (hn : LedTo entryPoints found n.identity) : Preceded entryPoints (found ++ [n]) := by
  intro i m hm
  rcases Nat.lt_trichotomy i found.length with hi | rfl | hi
  · rw [List.getElem?_append_left hi] at hm
    rw [List.take_append_of_le_length (Nat.le_of_lt hi)]
    exact h i m hm
  · rw [List.getElem?_concat_length] at hm
    cases hm
    rw [List.take_left]
    exact hn
  · rw [List.getElem?_eq_none (by simp; omega)] at hm
    cases hm

namespace Worklist

open Discovery

variable {c : Catalog}

/-- What a node refers to is led to by that node. -/
theorem ledTo_of_mem_pending {n : Node} {p : Identity × Origin} (hp : p ∈ n.pending) :
    LedTo entryPoints (found ++ [n]) p.1 := by
  obtain ⟨r, hr, hp⟩ := List.mem_flatMap.mp hp
  obtain ⟨id, hid, rfl⟩ := List.mem_map.mp hp
  exact Or.inr ⟨n, List.mem_append_right _ (List.mem_singleton_self _), r, hr, hid⟩

/-- The invariant: whatever is pending is led to by what was found, and so was each node. -/
theorem preceded_of_run {pending : List (Identity × Origin)} {s t : Discovery}
    (hpending : ∀ p ∈ pending, LedTo entryPoints s.nodes p.1) (hs : Preceded entryPoints s.nodes)
    (h : run c pending s = .ok t) : Preceded entryPoints t.nodes := by
  refine run_ok_induction (motive := fun pending s =>
    (∀ p ∈ pending, LedTo entryPoints s.nodes p.1) → Preceded entryPoints s.nodes →
      Preceded entryPoints t.nodes)
    ?visited ?system ?defined (fun _ hs => hs) h hpending hs
  case visited =>
    intro id origin rest s _ ih hpending hs
    exact ih (List.forall_mem_cons.mp hpending).2 hs
  case system =>
    intro id origin rest s _ _ ih hpending hs
    exact ih (List.forall_mem_cons.mp hpending).2 hs
  case defined =>
    intro id origin rest s n _ _ hn ih hpending hs
    obtain ⟨hid, hrest⟩ := List.forall_mem_cons.mp hpending
    rw [← Node.identity_of_resolve? hn] at hid
    refine ih ?_ (hs.append_singleton hid)
    rw [record, List.forall_mem_append]
    exact ⟨fun p hp => ledTo_of_mem_pending hp, fun p hp => (hrest p hp).append _⟩

end Worklist

/-- The recursive walk is the plain worklist: it finds the same nodes in the same order, or fails at
the same reference. Every node that it finds is an entry point or comes after a node that refers to
it. -/
theorem discover_eq_worklist (c : Catalog) (entryPoints : List Identity) :
    discover c entryPoints = Worklist.discover c entryPoints ∧
    ∀ g, discover c entryPoints = .ok g → Preceded entryPoints g.nodes := by
  have heq : discover c entryPoints = Worklist.discover c entryPoints := by
    rw [discover, Discovery.visitEntryPoints_eq_run, Worklist.discover]
  refine ⟨heq, ?_⟩
  intro g h
  rw [heq, Worklist.discover] at h
  obtain ⟨s, hs, rfl⟩ := exists_of_map_ok h
  refine Worklist.preceded_of_run ?_ ?_ hs
  · rw [List.forall_mem_map]
    exact fun id hid => Or.inl hid
  · intro i n hn
    cases hn

end ApiTypings
