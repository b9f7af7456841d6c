import ApiTypings.Proofs.Catalog.Merging
import ApiTypings.Proofs.Discovery.Closure
import ApiTypings.Proofs.Success

/-!
# Discovery in a larger catalog

A walk that succeeds is not changed by further definitions, because it never meets an identity
that is not defined, and further entry points only add nodes behind those found before them.
-/

namespace ApiTypings

open Discovery

section Resolved

variable {c c' : Catalog} (hsub : c.definitions ⊆ c'.definitions)

include hsub

/-- With more definitions an identity resolves to the same node. -/
theorem Node.resolve?_of_subset {id : Identity} {n : Node} (hn : resolve? c id = some n) :
    resolve? c' id = some n := by
  obtain ⟨d, hd, rfl⟩ := Option.map_eq_some_iff.mp hn
  rw [resolve?, Catalog.get?_of_subset hsub hd]
  rfl

/-- What is reached stays reached when more is entered and more is defined. -/
theorem Reachable.mono {entryPoints entryPoints' : List Identity}
    (hentries : entryPoints ⊆ entryPoints') {id : Identity} (h : Reachable c entryPoints id) :
    Reachable c' entryPoints' id := by
  induction h with
  | entry hid => exact .entry (hentries hid)
  | step _ href ih =>
    obtain ⟨hs, n, hn, hr⟩ := href
    exact .step ih ⟨hs, n, Node.resolve?_of_subset hsub hn, hr⟩

end Resolved

namespace Worklist

variable {c c' : Catalog}

/-- Pending identities are worked off from the front. -/
theorem run_append (c : Catalog) (pending rest : List (Identity × Origin)) (s : Discovery) :
    run c (pending ++ rest) s = (run c pending s).bind (run c rest) := by
  induction pending, s using run.induct c with
  | case1 s =>
    rw [run_nil]
    rfl
  | case2 s id origin pending hv ih =>
    rw [List.cons_append, run_visited origin hv, run_visited origin hv, ih]
  | case3 s id origin pending hv hs _ ih =>
    rw [List.cons_append, run_system origin hv hs, run_system origin hv hs, ih]
  | case4 s id origin pending hv hs hn =>
    rw [List.cons_append, run_undefined origin hv hs hn, run_undefined origin hv hs hn]
    rfl
  | case5 s id origin pending hv hs n hn _ ih =>
    rw [List.cons_append, run_defined origin hv hs hn, run_defined origin hv hs hn,
      ← List.append_assoc, ih]

/-- A run keeps the nodes that were found before it, in front of its own. -/
theorem nodes_prefix_of_run {pending : List (Identity × Origin)} {s t : Discovery}
    (h : run c pending s = .ok t) : s.nodes <+: t.nodes := by
  refine run_ok_induction (motive := fun _ s => s.nodes <+: t.nodes)
    ?visited ?system ?defined (List.prefix_refl _) h
  case visited =>
    intro id origin rest s _ ih
    exact ih
  case system =>
    intro id origin rest s _ _ ih
    exact ih
  case defined =>
    intro id origin rest s n _ _ _ ih
    exact (List.prefix_append s.nodes [n]).trans ih

/-- A run that succeeds goes the same way when more is defined. -/
theorem run_of_subset (hsub : c.definitions ⊆ c'.definitions)
    {pending : List (Identity × Origin)} {s t : Discovery} (h : run c pending s = .ok t) :
    run c' pending s = .ok t := by
  refine run_ok_induction (motive := fun pending s => run c' pending s = .ok t)
    ?visited ?system ?defined (run_nil c' t) h
  case visited =>
    intro id origin rest s hv ih
    rw [run_visited origin hv]
    exact ih
  case system =>
    intro id origin rest s hv hs ih
    rw [run_system origin hv hs]
    exact ih
  case defined =>
    intro id origin rest s n hv hs hn ih
    rw [run_defined origin hv (by simp [hs]) (Node.resolve?_of_subset hsub hn)]
    exact ih

end Worklist

section Extended

variable {c c' : Catalog} {entryPoints : List Identity} {g : Graph}
  (hsub : c.definitions ⊆ c'.definitions) (h : discover c entryPoints = .ok g)

include hsub h

/-- Discovery that succeeds finds the same graph when more is defined. -/
theorem discover_of_subset : discover c' entryPoints = .ok g := by
  rw [discover, visitEntryPoints_eq_run] at h ⊢
  obtain ⟨s, hs, rfl⟩ := exists_of_map_ok h
  rw [Worklist.run_of_subset hsub hs]
  rfl

/-- Further entry points add nodes at the end. -/
theorem nodes_prefix_of_discover {more : List Identity} {g' : Graph}
    (h' : discover c' (entryPoints ++ more) = .ok g') : g.nodes <+: g'.nodes := by
  rw [discover, visitEntryPoints_eq_run] at h h'
  obtain ⟨s, hs, rfl⟩ := exists_of_map_ok h
  obtain ⟨t, ht, rfl⟩ := exists_of_map_ok h'
  rw [List.map_append, Worklist.run_append, Worklist.run_of_subset hsub hs] at ht
  exact Worklist.nodes_prefix_of_run ht

end Extended

end ApiTypings
