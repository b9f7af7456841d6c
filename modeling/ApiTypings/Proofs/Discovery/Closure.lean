import ApiTypings.Graph.Reachable
import ApiTypings.Proofs.Discovery.Simulation

/-!
# Discovery finds exactly what is reachable

An invariant of the worklist says that whatever was visited is reachable, that every node found
is resolved, and that every reference of a found node is visited or still pending. When nothing
is pending the visited identities are closed under references, so they are the reachable ones.
A failed run stops at a reachable identity that the catalog does not define.
-/

namespace ApiTypings

open Discovery

/-- A pending identity with the place that made it pending: an entry point, or a reference of a
reachable type. -/
inductive Justified (c : Catalog) (entryPoints : List Identity) : Identity × Origin → Prop where
  | entry {id} : id ∈ entryPoints → Justified c entryPoints (id, ⟨id, .entryPoint⟩)
  | reference {a n r member id} : Reachable c entryPoints a → a.isSystem = false →
      Node.resolve? c a = some n → (r, member) ∈ n.references → id ∈ r.identities →
      Justified c entryPoints (id, ⟨a, member⟩)

variable {c : Catalog} {entryPoints : List Identity}

/-- What is pending for a reason is reachable. -/
theorem Justified.reachable {p : Identity × Origin} (h : Justified c entryPoints p) :
    Reachable c entryPoints p.1 := by
  cases h with
  | entry hm => exact .entry hm
  | reference ha hs hn hr hi => exact .step ha ⟨hs, _, hn, _, hr, hi⟩

namespace Worklist

private theorem mem_pending_of_mem_references {n : Node} {r : Reference × Member} {x : Identity}
    (hr : r ∈ n.references) (hx : x ∈ r.1.identities) : x ∈ n.pending.map Prod.fst :=
  List.mem_map.mpr ⟨(x, ⟨n.identity, r.2⟩),
    List.mem_flatMap.mpr ⟨r, hr, List.mem_map_of_mem hx⟩, rfl⟩

/-- What holds between any two steps of the worklist. -/
structure Invariant (c : Catalog) (entryPoints : List Identity)
    (pending : List (Identity × Origin)) (s : Discovery) : Prop where
  justified : ∀ p ∈ pending, Justified c entryPoints p
  reachable : ∀ id ∈ s.visited, Reachable c entryPoints id
  /-- A node is found under a visited identity outside the library, as the catalog has it. -/
  resolved : ∀ n ∈ s.nodes, n.identity ∈ s.visited ∧ n.identity.isSystem = false ∧
    Node.resolve? c n.identity = some n
  recorded : ∀ id ∈ s.visited, id.isSystem = false → id ∈ s.nodes.map Node.identity
  distinct : (s.nodes.map Node.identity).Nodup
  entries : ∀ id ∈ entryPoints, id ∈ s.visited ∨ id ∈ pending.map Prod.fst
  /-- No reference of a found node is lost: it was followed, or it waits to be. -/
  followed : ∀ n ∈ s.nodes, ∀ r ∈ n.references, ∀ id ∈ r.1.identities,
    id ∈ s.visited ∨ id ∈ pending.map Prod.fst

namespace Invariant

variable {id : Identity} {origin : Origin} {rest : List (Identity × Origin)} {s : Discovery}

/-- The run starts from the entry points with nothing visited. -/
theorem initial (c : Catalog) (entryPoints : List Identity) :
    Invariant c entryPoints (entryPoints.map fun id => (id, ⟨id, .entryPoint⟩)) {} where
  justified := by
    intro p hp
    obtain ⟨id, hid, rfl⟩ := List.mem_map.mp hp
    exact .entry hid
  reachable := by intro id hid; cases hid
  resolved := by intro n hn; cases hn
  recorded := by intro id hid; cases hid
  distinct := List.nodup_nil
  entries := by
    intro id hid
    right
    exact List.mem_map.mpr ⟨_, List.mem_map_of_mem hid, rfl⟩
  followed := by intro n hn; cases hn

/-- Once its first identity counts as visited, a pending list may be shortened. -/
theorem waiting_tail {t : Discovery} {x : Identity} (hsub : ∀ y ∈ s.visited, y ∈ t.visited)
    (hid : id ∈ t.visited) (h : x ∈ s.visited ∨ x ∈ ((id, origin) :: rest).map Prod.fst) :
    x ∈ t.visited ∨ x ∈ rest.map Prod.fst := by
  rw [List.map_cons, List.mem_cons] at h
  rcases h with hx | rfl | hx
  · exact Or.inl (hsub x hx)
  · exact Or.inl hid
  · exact Or.inr hx

/-- An identity that was visited before can be dropped. -/
theorem skip (h : Invariant c entryPoints ((id, origin) :: rest) s) (hv : id ∈ s.visited) :
    Invariant c entryPoints rest s where
  justified := fun p hp => h.justified p (List.mem_cons_of_mem _ hp)
  reachable := h.reachable
  resolved := h.resolved
  recorded := h.recorded
  distinct := h.distinct
  entries := fun x hx => waiting_tail (fun _ hy => hy) hv (h.entries x hx)
  followed := fun n hn r hr x hx => waiting_tail (fun _ hy => hy) hv (h.followed n hn r hr x hx)

private theorem reachable_mark (h : Invariant c entryPoints ((id, origin) :: rest) s) :
    ∀ x ∈ (s.mark id).visited, Reachable c entryPoints x := by
  intro x hx
  rcases List.mem_cons.mp hx with rfl | hx
  · exact (h.justified _ (List.mem_cons_self ..)).reachable
  · exact h.reachable x hx

/-- An identity of the library is marked and dropped. -/
theorem drop (h : Invariant c entryPoints ((id, origin) :: rest) s) (hs : id.isSystem = true) :
    Invariant c entryPoints rest (s.mark id) where
  justified := fun p hp => h.justified p (List.mem_cons_of_mem _ hp)
  reachable := h.reachable_mark
  resolved := by
    intro n hn
    obtain ⟨hv, hrest⟩ := h.resolved n hn
    exact ⟨List.mem_cons_of_mem _ hv, hrest⟩
  recorded := by
    intro x hx hsys
    rcases List.mem_cons.mp hx with rfl | hx
    · rw [hs] at hsys
      cases hsys
    · exact h.recorded x hx hsys
  distinct := h.distinct
  entries := fun x hx =>
    waiting_tail (fun _ hy => List.mem_cons_of_mem _ hy) (List.mem_cons_self ..) (h.entries x hx)
  followed := fun n hn r hr x hx =>
    waiting_tail (fun _ hy => List.mem_cons_of_mem _ hy) (List.mem_cons_self ..)
      (h.followed n hn r hr x hx)

/-- A defined identity is recorded, and what its node refers to waits in front of the rest. -/
theorem expand {n : Node} (h : Invariant c entryPoints ((id, origin) :: rest) s)
    (hv : id ∉ s.visited) (hs : id.isSystem = false) (hn : Node.resolve? c id = some n) :
    Invariant c entryPoints (n.pending ++ rest) ((s.mark id).record n) := by
  have hid : n.identity = id := Node.identity_of_resolve? hn
  have hreach : Reachable c entryPoints id := (h.justified _ (List.mem_cons_self ..)).reachable
  -- What was waiting still waits, behind the references of the node.
  have hwait : ∀ x, (x ∈ s.visited ∨ x ∈ ((id, origin) :: rest).map Prod.fst) →
      x ∈ ((s.mark id).record n).visited ∨ x ∈ (n.pending ++ rest).map Prod.fst := by
    intro x hx
    have htail := waiting_tail (t := s.mark id) (fun _ hy => List.mem_cons_of_mem _ hy)
      (List.mem_cons_self ..) hx
    rw [List.map_append, List.mem_append]
    exact htail.imp_right Or.inr
  refine ⟨?_, h.reachable_mark, ?_, ?_, ?_, fun x hx => hwait x (h.entries x hx), ?_⟩
  · intro p hp
    rcases List.mem_append.mp hp with hp | hp
    · obtain ⟨⟨r, member⟩, hr, hp⟩ := List.mem_flatMap.mp hp
      obtain ⟨x, hx, rfl⟩ := List.mem_map.mp hp
      rw [hid]
      exact .reference hreach hs hn hr hx
    · exact h.justified p (List.mem_cons_of_mem _ hp)
  · intro m hm
    rcases List.mem_append.mp hm with hm | hm
    · obtain ⟨hvm, hrest⟩ := h.resolved m hm
      exact ⟨List.mem_cons_of_mem _ hvm, hrest⟩
    · rw [List.mem_singleton.mp hm, hid]
      exact ⟨List.mem_cons_self .., hs, hn⟩
  · intro x hx hsys
    rw [record, List.map_append, List.mem_append]
    rcases List.mem_cons.mp hx with rfl | hx
    · right
      simp [hid]
    · exact Or.inl (h.recorded x hx hsys)
  · rw [record, List.map_append]
    refine List.nodup_append.mpr ⟨h.distinct, by simp, ?_⟩
    -- A node found before lies under a visited identity, and this one was not visited.
    rintro x hx y hy rfl
    obtain ⟨m, hm, hmx⟩ := List.mem_map.mp hx
    have hmv := (h.resolved m hm).1
    rw [hmx, List.mem_singleton.mp hy, hid] at hmv
    exact hv hmv
  · intro m hm r hr x hx
    rcases List.mem_append.mp hm with hm | hm
    · exact hwait x (h.followed m hm r hr x hx)
    · rw [List.mem_singleton.mp hm] at hr
      right
      rw [List.map_append, List.mem_append]
      exact Or.inl (mem_pending_of_mem_references hr hx)

end Invariant

/-- A run that ends well keeps the invariant until nothing is pending. -/
theorem invariant_of_run {pending : List (Identity × Origin)} {s t : Discovery}
    (h : Invariant c entryPoints pending s) (hr : run c pending s = .ok t) :
    Invariant c entryPoints [] t := by
  refine run_ok_induction (motive := fun pending s =>
    Invariant c entryPoints pending s → Invariant c entryPoints [] t)
    ?visited ?system ?defined (fun h => h) hr h
  case visited =>
    intro id origin rest s hv ih h
    exact ih (h.skip hv)
  case system =>
    intro id origin rest s _ hs ih h
    exact ih (h.drop hs)
  case defined =>
    intro id origin rest s n hv hs hn ih h
    exact ih (h.expand hv hs hn)

/-- A run that fails met a justified identity outside the library that is not defined. -/
theorem justified_of_run {pending : List (Identity × Origin)} {s : Discovery} {e : Unresolved}
    (h : Invariant c entryPoints pending s) (hr : run c pending s = .error e) :
    ∃ id origin, e = origin.unresolved id ∧ Justified c entryPoints (id, origin) ∧
      id.isSystem = false ∧ Node.resolve? c id = none := by
  refine run_error_induction (motive := fun pending s => Invariant c entryPoints pending s →
    ∃ id origin, e = origin.unresolved id ∧ Justified c entryPoints (id, origin) ∧
      id.isSystem = false ∧ Node.resolve? c id = none)
    ?visited ?system ?defined ?undefined hr h
  case visited =>
    intro id origin rest s hv ih h
    exact ih (h.skip hv)
  case system =>
    intro id origin rest s _ hs ih h
    exact ih (h.drop hs)
  case defined =>
    intro id origin rest s n hv hs hn ih h
    exact ih (h.expand hv hs hn)
  case undefined =>
    intro id origin rest s _ hs hn he h
    exact ⟨id, origin, he.symm, h.justified _ (List.mem_cons_self ..), hs, hn⟩

/-- With nothing pending, the visited identities are the reachable ones. -/
theorem Invariant.mem_visited_iff {s : Discovery} (h : Invariant c entryPoints [] s)
    (id : Identity) : id ∈ s.visited ↔ Reachable c entryPoints id := by
  constructor
  · exact h.reachable id
  · intro hr
    induction hr with
    | entry hm => simpa using h.entries _ hm
    | step _ href ih =>
      obtain ⟨hs, n, hn, r, hr, hid⟩ := href
      obtain ⟨m, hm, hma⟩ := List.mem_map.mp (h.recorded _ ih hs)
      have hnm : n = m := by
        have hres := (h.resolved m hm).2.2
        rw [hma, hn] at hres
        exact Option.some.inj hres
      rw [hnm] at hr
      simpa using h.followed m hm r hr _ hid

end Worklist

/-- A discovered graph is the end of a run that kept the invariant. -/
theorem exists_invariant_of_discover {g : Graph} (h : discover c entryPoints = .ok g) :
    ∃ s : Discovery, g = s.graph ∧ Worklist.Invariant c entryPoints [] s := by
  rw [discover, visitEntryPoints_eq_run] at h
  cases hr : Worklist.run c (entryPoints.map fun id => (id, ⟨id, .entryPoint⟩)) {} with
  | error e =>
    rw [hr] at h
    cases h
  | ok s =>
    rw [hr] at h
    cases h
    exact ⟨s, rfl, Worklist.invariant_of_run (.initial c entryPoints) hr⟩

/-- A failure names the origin of a justified identity that is not defined. -/
theorem justified_of_discover {e : Unresolved} (h : discover c entryPoints = .error e) :
    ∃ id origin, e = origin.unresolved id ∧ Justified c entryPoints (id, origin) ∧
      id.isSystem = false ∧ Node.resolve? c id = none := by
  rw [discover, visitEntryPoints_eq_run] at h
  cases hr : Worklist.run c (entryPoints.map fun id => (id, ⟨id, .entryPoint⟩)) {} with
  | error e' =>
    rw [hr] at h
    cases h
    exact Worklist.justified_of_run (.initial c entryPoints) hr
  | ok s =>
    rw [hr] at h
    cases h

/-- Exactly the identities of a catalog resolve to a node. -/
theorem Node.resolve?_isSome_iff {id : Identity} :
    (resolve? c id).isSome ↔ id ∈ c.identities := by
  simp [resolve?, Catalog.get?, Catalog.identities]

section Found

variable {g : Graph} (h : discover c entryPoints = .ok g)

include h

/-- The graph has the reachable identities outside the library and no others. -/
theorem mem_identities_iff_reachable (id : Identity) :
    id ∈ g.identities ↔ Reachable c entryPoints id ∧ id.isSystem = false := by
  obtain ⟨s, rfl, hinv⟩ := exists_invariant_of_discover h
  constructor
  · intro hid
    obtain ⟨n, hn, rfl⟩ := List.mem_map.mp hid
    obtain ⟨hv, hs, _⟩ := hinv.resolved n hn
    exact ⟨hinv.reachable _ hv, hs⟩
  · rintro ⟨hr, hs⟩
    exact hinv.recorded id ((hinv.mem_visited_iff id).mpr hr) hs

/-- A discovered graph has each identity once. -/
theorem nodup_identities : g.identities.Nodup := by
  obtain ⟨s, rfl, hinv⟩ := exists_invariant_of_discover h
  exact hinv.distinct

/-- Every node of the graph is the one that its identity resolves to. -/
theorem resolve?_of_mem_nodes {n : Node} (hn : n ∈ g.nodes) :
    Node.resolve? c n.identity = some n := by
  obtain ⟨s, rfl, hinv⟩ := exists_invariant_of_discover h
  exact (hinv.resolved n hn).2.2

/-- A discovered graph has the nodes that the catalog resolves its identities to. -/
theorem node?_eq_resolve? {id : Identity} (hid : id ∈ g.identities) :
    g.node? id = Node.resolve? c id := by
  obtain ⟨n, hn⟩ := Option.isSome_iff_exists.mp (Graph.contains_iff.mpr hid)
  have hmem : n ∈ g.nodes := List.mem_of_find?_eq_some hn
  have heq : n.identity = id := by simpa using List.find?_some hn
  rw [hn, ← heq, resolve?_of_mem_nodes h hmem]

end Found

/-- Discovery succeeds exactly when every reachable identity outside the library is defined. -/
theorem exists_discover_iff :
    (∃ g, discover c entryPoints = .ok g) ↔
      ∀ id, Reachable c entryPoints id → id.isSystem = false → id ∈ c.identities := by
  constructor
  · rintro ⟨g, h⟩ id hr hs
    have hid := (mem_identities_iff_reachable h id).mpr ⟨hr, hs⟩
    obtain ⟨n, hn, rfl⟩ := List.mem_map.mp hid
    exact Node.mem_identities_of_resolve? (resolve?_of_mem_nodes h hn)
  · intro hdef
    cases h : discover c entryPoints with
    | ok g => exact ⟨g, rfl⟩
    | error e =>
      obtain ⟨id, origin, _, hj, hs, hn⟩ := justified_of_discover h
      have hsome := Node.resolve?_isSome_iff.mpr (hdef id hj.reachable hs)
      rw [hn] at hsome
      cases hsome

/-- Discovery is the closure of the entry points under references: it succeeds exactly when every
reachable identity outside the library is defined, and then the graph has exactly those
identities, each once and with the node it resolves to. -/
theorem discover_eq_closure (c : Catalog) (entryPoints : List Identity) :
    ((∃ g, discover c entryPoints = .ok g) ↔
      ∀ id, Reachable c entryPoints id → id.isSystem = false → id ∈ c.identities) ∧
    ∀ g, discover c entryPoints = .ok g →
      g.identities.Nodup ∧
      (∀ id, id ∈ g.identities ↔ Reachable c entryPoints id ∧ id.isSystem = false) ∧
      ∀ id ∈ g.identities, g.node? id = Node.resolve? c id := by
  refine ⟨exists_discover_iff, ?_⟩
  intro g h
  exact ⟨nodup_identities h, mem_identities_iff_reachable h, fun _ => node?_eq_resolve? h⟩

end ApiTypings
