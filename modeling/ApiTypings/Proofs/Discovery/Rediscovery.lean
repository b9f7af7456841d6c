import ApiTypings.Proofs.Generation.Stability

/-!
# Discovery as a closure operator that keeps order

What a run does depends on the state it starts from only through the nodes found and the visited
identities outside the library. Entering identities that are visited or of the library adds nothing,
and entering the nodes that a run found, in their order, finds them again in that order: the nodes
below the first one form a block that its own walk finds, and each of them is visited by the time it
is entered.
-/

namespace ApiTypings

open Discovery

/-- Two states have the same nodes and differ in visited identities of the library only. -/
structure Discovery.Same (s t : Discovery) : Prop where
  nodes : s.nodes = t.nodes
  visited : ∀ id, id.isSystem = false → (id ∈ s.visited ↔ id ∈ t.visited)

namespace Discovery.Same

variable {s t u : Discovery} {id : Identity}

/-- A state is the same as itself. -/
theorem refl (s : Discovery) : s.Same s := ⟨rfl, fun _ _ => Iff.rfl⟩

/-- States that are the same as a third are the same. -/
theorem trans (h : s.Same t) (h' : t.Same u) : s.Same u :=
  ⟨h.nodes.trans h'.nodes, fun id hs => (h.visited id hs).trans (h'.visited id hs)⟩

/-- Being the same goes both ways. -/
theorem symm (h : s.Same t) : t.Same s := ⟨h.nodes.symm, fun id hs => (h.visited id hs).symm⟩

private theorem graph_eq (h : s.Same t) : s.graph = t.graph := congrArg Graph.mk h.nodes

/-- Marking an identity of the library changes nothing that matters. -/
theorem mark_system (hid : id.isSystem = true) : s.Same (s.mark id) := by
  refine ⟨rfl, fun x hx => ?_⟩
  have hne : x ≠ id := by
    rintro rfl
    rw [hid] at hx
    cases hx
  simp [mark, hne]

/-- Marking an identity on both sides changes nothing. -/
theorem mark (h : s.Same t) (id : Identity) : (s.mark id).Same (t.mark id) := by
  refine ⟨h.nodes, fun x hx => ?_⟩
  rw [Discovery.mark, Discovery.mark, List.mem_cons, List.mem_cons, h.visited x hx]

/-- Recording a node on both sides changes nothing. -/
theorem record (h : s.Same t) (n : Node) : (s.record n).Same (t.record n) :=
  ⟨congrArg (· ++ [n]) h.nodes, h.visited⟩

/-- An identity that is no system type is visited on both sides or on neither. -/
theorem not_mem (h : s.Same t) (hs : ¬ id.isSystem = true) (hv : id ∉ s.visited) :
    id ∉ t.visited := fun ht => hv ((h.visited id (by simpa using hs)).mpr ht)

end Discovery.Same

namespace Worklist

variable {c : Catalog} {id : Identity} {s t : Discovery}

/-- An identity of the library is passed over, visited or not. -/
theorem exists_run_cons_system (origin : Origin) (hs : id.isSystem = true)
    (rest : List (Identity × Origin)) (s : Discovery) :
    ∃ s', s.Same s' ∧ run c ((id, origin) :: rest) s = run c rest s' := by
  by_cases hv : id ∈ s.visited
  · exact ⟨s, .refl s, run_visited origin hv rest⟩
  · exact ⟨s.mark id, .mark_system hs, run_system origin hv hs rest⟩

/-- Runs from states that are the same end in states that are the same. -/
theorem run_congr {pending : List (Identity × Origin)} {s' : Discovery}
    (h : run c pending s = .ok t) (hsame : s.Same s') :
    ∃ t', run c pending s' = .ok t' ∧ t.Same t' := by
  refine run_ok_induction (motive := fun pending s =>
    ∀ s', s.Same s' → ∃ t', run c pending s' = .ok t' ∧ t.Same t')
    ?visited ?system ?defined (fun s' hsame => ⟨s', run_nil c s', hsame⟩) h s' hsame
  case visited =>
    intro id origin rest s hv ih s' hsame
    by_cases hs : id.isSystem = true
    · obtain ⟨s'', hs'', hrun⟩ := exists_run_cons_system (c := c) origin hs rest s'
      rw [hrun]
      exact ih s'' (hsame.trans hs'')
    · rw [run_visited origin ((hsame.visited id (by simpa using hs)).mp hv)]
      exact ih s' hsame
  case system =>
    intro id origin rest s _ hs ih s' hsame
    obtain ⟨s'', hs'', hrun⟩ := exists_run_cons_system (c := c) origin hs rest s'
    rw [hrun]
    exact ih s'' ((Same.mark_system hs).symm.trans (hsame.trans hs''))
  case defined =>
    intro id origin rest s n hv hs hn ih s' hsame
    have hs' : ¬ id.isSystem = true := by simp [hs]
    rw [run_defined origin (hsame.not_mem hs' hv) hs' hn]
    exact ih _ ((hsame.mark id).record n)

/-- Pending identities that are visited or of the library are worked off without a trace. -/
theorem exists_run_of_settled {pending : List (Identity × Origin)}
    (h : ∀ p ∈ pending, p.1.isSystem = true ∨ p.1 ∈ s.visited) :
    ∃ t, run c pending s = .ok t ∧ s.Same t := by
  induction pending generalizing s with
  | nil => exact ⟨s, run_nil c s, .refl s⟩
  | cons p pending ih =>
    obtain ⟨id, origin⟩ := p
    obtain ⟨hid, hrest⟩ := List.forall_mem_cons.mp h
    by_cases hs : id.isSystem = true
    · obtain ⟨s', hs', hrun⟩ := exists_run_cons_system (c := c) origin hs pending s
      have hsettled : ∀ p ∈ pending, p.1.isSystem = true ∨ p.1 ∈ s'.visited := by
        intro p hp
        by_cases hps : p.1.isSystem = true
        · exact Or.inl hps
        · have hpv := (hrest p hp).resolve_left hps
          exact Or.inr ((hs'.visited p.1 (by simpa using hps)).mp hpv)
      obtain ⟨t, ht, hst⟩ := ih hsettled
      exact ⟨t, hrun.trans ht, hs'.trans hst⟩
    · obtain ⟨t, ht, hst⟩ := ih hrest
      exact ⟨t, (run_visited origin (hid.resolve_left hs) pending).trans ht, hst⟩

/-- What was visited stays visited. -/
theorem visited_subset_of_run {pending : List (Identity × Origin)}
    (h : run c pending s = .ok t) : ∀ x ∈ s.visited, x ∈ t.visited := by
  refine run_ok_induction (motive := fun _ s => ∀ x ∈ s.visited, x ∈ t.visited)
    ?visited ?system ?defined (fun _ hx => hx) h
  case visited =>
    intro id origin rest s _ ih
    exact ih
  case system =>
    intro id origin rest s _ _ ih x hx
    exact ih x (List.mem_cons_of_mem _ hx)
  case defined =>
    intro id origin rest s n _ _ _ ih x hx
    exact ih x (List.mem_cons_of_mem _ hx)

/-- A run that ends well, as a walk: below a defined identity the references of its node are walked
first, then the rest of the list. -/
inductive Walk (c : Catalog) : List (Identity × Origin) → Discovery → Discovery → Prop where
  | nil (s : Discovery) : Walk c [] s s
  | visited {id : Identity} (origin : Origin) {rest : List (Identity × Origin)} {s t : Discovery} :
      id ∈ s.visited → Walk c rest s t → Walk c ((id, origin) :: rest) s t
  | system {id : Identity} (origin : Origin) {rest : List (Identity × Origin)} {s t : Discovery} :
      id ∉ s.visited → id.isSystem = true → Walk c rest (s.mark id) t →
      Walk c ((id, origin) :: rest) s t
  | defined {id : Identity} (origin : Origin) {rest : List (Identity × Origin)} {n : Node}
      {s u t : Discovery} : id ∉ s.visited → ¬ id.isSystem = true → Node.resolve? c id = some n →
      Walk c n.pending ((s.mark id).record n) u → Walk c rest u t →
      Walk c ((id, origin) :: rest) s t

/-- A walk is a run that ends well. -/
theorem Walk.run_eq {pending : List (Identity × Origin)} (h : Walk c pending s t) :
    run c pending s = .ok t := by
  induction h with
  | nil s => exact run_nil c s
  | visited origin hv _ ih => exact (run_visited origin hv _).trans ih
  | system origin hv hs _ ih => exact (run_system origin hv hs _).trans ih
  | defined origin hv hs hn _ _ ihbelow ihrest =>
    rw [run_defined origin hv hs hn, run_append, ihbelow]
    exact ihrest

/-- A run that ends well is a walk. -/
theorem walk_of_run (pending : List (Identity × Origin)) (s t : Discovery)
    (h : run c pending s = .ok t) : Walk c pending s t := by
  match pending with
  | [] =>
    rw [run_nil] at h
    cases h
    exact .nil s
  | (id, origin) :: rest =>
    by_cases hv : id ∈ s.visited
    · rw [run_visited origin hv] at h
      exact .visited origin hv (walk_of_run rest s t h)
    by_cases hs : id.isSystem = true
    · rw [run_system origin hv hs] at h
      have hle := unvisited_le (c := c) (s := s) ⟨s.mark id, fun _ hx => List.mem_cons_of_mem _ hx⟩
      exact .system origin hv hs (walk_of_run rest (s.mark id) t h)
    cases hn : Node.resolve? c id with
    | none =>
      rw [run_undefined origin hv hs hn] at h
      cases h
    | some n =>
      rw [run_defined origin hv hs hn, run_append] at h
      cases hu : run c n.pending ((s.mark id).record n) with
      | error e =>
        rw [hu] at h
        cases h
      | ok u =>
        rw [hu] at h
        have hlt := unvisited_mark_lt (Node.mem_identities_of_resolve? hn) hv
        have hle := unvisited_le (c := c) ⟨u, visited_subset_of_run hu⟩
        exact .defined origin hv hs hn (walk_of_run n.pending ((s.mark id).record n) u hu)
          (walk_of_run rest u t h)
termination_by (unvisited c s, pending.length)
decreasing_by
  · exact Prod.Lex.right _ (by simp)
  · rcases Nat.lt_or_eq_of_le hle with h | h
    · exact Prod.Lex.left _ _ h
    · exact h ▸ Prod.Lex.right _ (by simp)
  · exact Prod.Lex.left _ _ hlt
  · exact Prod.Lex.left _ _ (Nat.lt_of_le_of_lt hle hlt)

/-- Identities to enter, each its own origin. -/
def entries (ids : List Identity) : List (Identity × Origin) :=
  ids.map fun id => (id, ⟨id, .entryPoint⟩)

/-- Nodes that a walk added under visited identities, found again when these identities are entered
from where the walk started. -/
structure Rediscovered (c : Catalog) (s t : Discovery) (added : List Node) : Prop where
  nodes : t.nodes = s.nodes ++ added
  settled : ∀ n ∈ added, n.identity ∈ t.visited
  again : ∀ s', s.Same s' →
    ∃ t', run c (entries (added.map Node.identity)) s' = .ok t' ∧ t.Same t'

/-- The nodes that a walk added are found again in their order. -/
theorem Walk.rediscovered {pending : List (Identity × Origin)} (h : Walk c pending s t) :
    ∃ added, Rediscovered c s t added := by
  induction h with
  | nil s =>
    exact ⟨[], (List.append_nil _).symm, nofun, fun s' hs' => ⟨s', run_nil c s', hs'⟩⟩
  | visited origin hv _ ih => exact ih
  | system origin hv hs _ ih =>
    obtain ⟨added, hnodes, hsettled, hagain⟩ := ih
    exact ⟨added, hnodes, hsettled, fun s' hs' => hagain s' ((Same.mark_system hs).symm.trans hs')⟩
  | @defined id origin rest n s u t hv hs hn hbelow hrest ihbelow ihrest =>
    obtain ⟨below, hnodes, hsettled, _⟩ := ihbelow
    obtain ⟨later, hnodes', hsettled', hagain⟩ := ihrest
    have hid : n.identity = id := Node.identity_of_resolve? hn
    have hkept := visited_subset_of_run hrest.run_eq
    refine ⟨n :: (below ++ later), ?_, ?_, ?_⟩
    · rw [hnodes', hnodes]
      simp [record, mark]
    · rw [List.forall_mem_cons, List.forall_mem_append, hid]
      refine ⟨hkept _ ?_, fun m hm => hkept _ (hsettled m hm), hsettled'⟩
      exact visited_subset_of_run hbelow.run_eq _ (List.mem_cons_self ..)
    · intro s' hs'
      obtain ⟨u', hu', hsame⟩ := run_congr hbelow.run_eq ((hs'.mark id).record n)
      -- The nodes below the first are visited by now, so entering them adds nothing.
      have hseen : ∀ p ∈ entries (below.map Node.identity),
          p.1.isSystem = true ∨ p.1 ∈ u'.visited := by
        intro p hp
        rw [entries, List.map_map] at hp
        obtain ⟨m, hm, rfl⟩ := List.mem_map.mp hp
        by_cases hms : m.identity.isSystem = true
        · exact Or.inl hms
        · exact Or.inr ((hsame.visited _ (by simpa using hms)).mp (hsettled m hm))
      obtain ⟨v, hv', huv⟩ := exists_run_of_settled (c := c) hseen
      obtain ⟨t', ht', htt'⟩ := hagain v (hsame.trans huv)
      refine ⟨t', ?_, htt'⟩
      have hentries : entries ((n :: (below ++ later)).map Node.identity) =
          (id, ⟨id, .entryPoint⟩) ::
            (entries (below.map Node.identity) ++ entries (later.map Node.identity)) := by
        simp [entries, hid]
      rw [hentries, run_defined _ (hs'.not_mem hs hv) hs hn, run_append, hu']
      change run c (_ ++ _) u' = _
      rw [run_append, hv']
      exact ht'

end Worklist

/-- Discovery from entry points that it succeeds on is a closure that keeps its order. Entering what
is found or belongs to the library as well changes nothing, entering exactly what was found finds it
again in the same order, and entering anything else only adds nodes at the end. -/
theorem discover_closed {c : Catalog} {entryPoints : List Identity} {g : Graph}
    (h : discover c entryPoints = .ok g) :
    (∀ more, (∀ id ∈ more, id.isSystem = true ∨ id ∈ g.identities) →
      discover c (entryPoints ++ more) = .ok g) ∧
    discover c g.identities = .ok g ∧
    ∀ more g', discover c (entryPoints ++ more) = .ok g' → g.nodes <+: g'.nodes := by
  have hrun := h
  rw [discover, visitEntryPoints_eq_run] at hrun
  obtain ⟨s, hs, rfl⟩ := exists_of_map_ok hrun
  refine ⟨?_, ?_, fun _ _ => nodes_prefix_of_discover (fun _ hd => hd) h⟩
  · intro more hmore
    have hinv := Worklist.invariant_of_run (.initial c entryPoints) hs
    have hsettled : ∀ p ∈ Worklist.entries more, p.1.isSystem = true ∨ p.1 ∈ s.visited := by
      intro p hp
      obtain ⟨id, hid, rfl⟩ := List.mem_map.mp hp
      refine (hmore id hid).imp_right fun hfound => ?_
      obtain ⟨n, hn, rfl⟩ := List.mem_map.mp hfound
      exact (hinv.resolved n hn).1
    obtain ⟨t, ht, hst⟩ := Worklist.exists_run_of_settled (c := c) hsettled
    rw [discover, visitEntryPoints_eq_run, List.map_append, Worklist.run_append, hs]
    exact (congrArg _ ht).trans (congrArg Except.ok hst.graph_eq.symm)
  · obtain ⟨added, hnodes, _, hagain⟩ := (Worklist.walk_of_run _ _ _ hs).rediscovered
    obtain ⟨t, ht, hst⟩ := hagain {} (.refl {})
    have hadded : s.graph.identities = added.map Node.identity := by
      rw [Graph.identities, graph, hnodes]
      rfl
    rw [discover, visitEntryPoints_eq_run, hadded]
    exact (congrArg _ ht).trans (congrArg Except.ok hst.graph_eq.symm)

/-- The first controller of the shop leads to the same graph again when the order it returns and a
type of the library are entered as well, and when its own nodes are entered; a second controller
comes after them. -/
theorem Shop.discover_closed_orders :
    discover statusCatalog [controller.identity] = .ok graph ∧
    discover statusCatalog ([controller.identity] ++
      [order.identity, Identity.ofQualified "System.Decimal" 0]) = .ok graph ∧
    discover statusCatalog [controller.identity, order.identity] = .ok graph ∧
    discover statusCatalog ([controller.identity] ++ [status.identity]) = .ok statusGraph ∧
    graph.nodes <+: statusGraph.nodes := by
  have hsub : catalog.definitions ⊆ statusCatalog.definitions := by
    intro d hd
    exact List.mem_append_left [status] hd
  have h : discover statusCatalog [controller.identity] = .ok graph :=
    discover_of_subset hsub discover_eq_graph
  have hsecond : discover statusCatalog ([controller.identity] ++ [status.identity]) =
      .ok statusGraph := discover_eq_statusGraph
  obtain ⟨hsettled, hagain, hprefix⟩ := discover_closed h
  exact ⟨h, hsettled _ (by decide), hagain, hsecond, hprefix _ _ hsecond⟩

end ApiTypings
