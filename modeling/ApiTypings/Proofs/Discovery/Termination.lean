import ApiTypings.Proofs.Discovery.Lookups
import Mathlib.Order.WellFounded

/-!
# Discovery comes to an end

A call that expands a type has visited a defined identity for the first time, and any other call
makes calls for smaller references only, while nothing that was visited is forgotten. So the calls
are well founded, every call has an outcome by the rules, and it is the one that the walk computes.
-/

namespace ApiTypings.Discovery

variable {c : Catalog} {call : Call} {calls : List Call} {s t : Discovery}
  {resolved : List Identity}

/-- What decreases with each call: the defined identities that were not visited, then the reference
that is still to walk. -/
def remaining (c : Catalog) (p : Call × Discovery) : Nat × Nat := (unvisited c p.2, p.1.size)

private theorem unvisited_le_of_evaluatesAll (h : EvaluatesAll c calls s resolved (.ok t)) :
    unvisited c t ≤ unvisited c s :=
  unvisited_le ⟨t, fun _ hid => visited_subset h hid⟩

private theorem size_le_sizeOfAll {r : Reference} {rs : List Reference} (h : r ∈ rs) :
    r.size < Reference.sizeOfAll rs := by
  induction rs with
  | nil => cases h
  | cons r' rs ih =>
    rw [Reference.sizeOfAll]
    rcases List.mem_cons.mp h with rfl | h
    · omega
    · have := ih h
      omega

/-- A reference is walked over by calls for smaller ones. -/
theorem size_lt_of_mem_ofReference {origin : Origin} {r : Reference}
    (h : call ∈ Call.ofReference origin r) : call.size < r.size := by
  cases r with
  | param position => cases h
  | array element | nullable inner =>
    obtain rfl := List.mem_singleton.mp h
    simp only [Call.size, Reference.size]
    omega
  | named id args =>
    rw [Reference.size]
    rcases List.mem_cons.mp h with rfl | h
    · simp only [Call.size]
      omega
    · obtain ⟨r, hr, rfl⟩ := List.mem_map.mp h
      have := size_le_sizeOfAll hr
      simp only [Call.size]
      omega

/-- A call makes calls with less to do. -/
theorem remaining_lt_of_calls {inner outer : Call × Discovery} (h : Calls c inner outer) :
    Prod.Lex (· < ·) (· < ·) (remaining c inner) (remaining c outer) := by
  cases h with
  | definition hv _ hn _ heval =>
    have hlt := unvisited_mark_lt (Node.mem_identities_of_resolve? hn) hv
    exact .left _ _ (Nat.lt_of_le_of_lt (unvisited_le_of_evaluatesAll heval) hlt)
  | reference heq heval =>
    have hsize := size_lt_of_mem_ofReference (heq ▸ List.mem_append_right _ (List.mem_cons_self ..))
    rcases Nat.lt_or_eq_of_le (unvisited_le_of_evaluatesAll heval) with hlt | hsame
    · exact .left _ _ hlt
    · rw [remaining, remaining, hsame]
      exact .right _ hsize

/-- No chain of calls goes on forever. -/
theorem wellFounded_calls (c : Catalog) : WellFounded (Calls c) := by
  apply Subrelation.wf (r := InvImage (Prod.Lex (· < ·) (· < ·)) (remaining c))
  · exact remaining_lt_of_calls
  · exact InvImage.wf _ (WellFounded.prod_lex Nat.lt_wfRel.wf Nat.lt_wfRel.wf)

/-- Calls made one after the other have an outcome when each of them has one in the state in which
it is made. -/
theorem exists_evaluatesAll (h : ∀ before call after resolved t, calls = before ++ call :: after →
      EvaluatesAll c before s resolved (.ok t) →
      ∃ resolved result, Evaluates c call t resolved result) :
    ∃ resolved result, EvaluatesAll c calls s resolved result := by
  induction calls generalizing s with
  | nil => exact ⟨[], .ok s, .nil⟩
  | cons call rest ih =>
    obtain ⟨resolved, result, hcall⟩ := h [] call rest [] s rfl .nil
    cases result with
    | error e => exact ⟨resolved, .error e, .stop hcall⟩
    | ok t =>
      obtain ⟨later, result, hrest⟩ := ih fun before inner after resolved' u heq heval =>
        h (call :: before) inner after (resolved ++ resolved') u (by rw [heq, List.cons_append])
          (.next hcall heval)
      exact ⟨resolved ++ later, result, .next hcall hrest⟩

/-- Every call has an outcome. -/
theorem exists_evaluates (c : Catalog) (p : Call × Discovery) :
    ∃ resolved result, Evaluates c p.1 p.2 resolved result := by
  induction p using (wellFounded_calls c).induction with
  | h p ih =>
    obtain ⟨call, s⟩ := p
    cases call with
    | definition id origin =>
      by_cases hv : id ∈ s.visited
      · exact ⟨[], .ok s, .visited hv⟩
      cases hs : id.isSystem with
      | true => exact ⟨[], .ok (s.mark id), .system hv hs⟩
      | false =>
        cases hn : Node.resolve? c id with
        | none => exact ⟨[id], _, .undefined hv hs hn⟩
        | some n =>
          obtain ⟨resolved, result, hall⟩ :=
            exists_evaluatesAll fun before call after resolved t heq heval =>
              ih (call, t) (.definition hv hs hn heq heval)
          exact ⟨id :: resolved, result, .defined hv hs hn hall⟩
    | reference r origin =>
      obtain ⟨resolved, result, hall⟩ :=
        exists_evaluatesAll fun before call after resolved t heq heval =>
          ih (call, t) (.reference heq heval)
      exact ⟨resolved, result, .reference hall⟩

/-! ## The walk is what the rules say -/

/-- What the walk makes of a call. -/
def Call.visit (c : Catalog) : Call → Discovery → Except Unresolved Discovery
  | .definition id origin, s => outcome (visitDefinition c id origin s)
  | .reference r origin, s => outcome (visitReference c r origin s)

/-- What the walk makes of calls one after the other. -/
def visitAll (c : Catalog) : List Call → Discovery → Except Unresolved Discovery
  | [], s => .ok s
  | call :: rest, s => (call.visit c s).bind (visitAll c rest)

private theorem visitAll_singleton (call : Call) (s : Discovery) :
    visitAll c [call] s = call.visit c s := by
  rw [visitAll]
  cases call.visit c s <;> rfl

private theorem outcome_visitArguments (rs : List Reference) (origin : Origin) (s : Discovery) :
    outcome (visitArguments c rs origin s) = visitAll c (rs.map (.reference · origin)) s := by
  induction rs generalizing s with
  | nil =>
    rw [visitArguments]
    rfl
  | cons r rs ih =>
    rw [outcome_visitArguments_cons, List.map_cons, visitAll]
    exact congrArg _ (funext ih)

private theorem outcome_visitReferences (id : Identity) (refs : List (Reference × Member))
    (s : Discovery) :
    outcome (visitReferences c id refs s) = visitAll c (Call.ofReferences id refs) s := by
  induction refs generalizing s with
  | nil =>
    rw [visitReferences]
    rfl
  | cons p refs ih =>
    rw [outcome_visitReferences_cons, Call.ofReferences, List.map_cons, visitAll]
    exact congrArg _ (funext ih)

private theorem visit_reference (r : Reference) (origin : Origin) (s : Discovery) :
    Call.visit c (.reference r origin) s = visitAll c (Call.ofReference origin r) s := by
  cases r with
  | param position =>
    rw [Call.visit, visitReference]
    rfl
  | array element | nullable inner =>
    rw [Call.ofReference, visitAll_singleton, Call.visit, visitReference]
    rfl
  | named id args =>
    rw [Call.ofReference, Call.visit, outcome_visitReference_named, visitAll]
    exact congrArg _ (funext fun t => outcome_visitArguments args origin t)

/-- Visiting entry points is making the calls for them one after the other. -/
theorem visitEntryPoints_eq_visitAll (ids : List Identity) (s : Discovery) :
    visitEntryPoints c s ids = visitAll c (Call.ofEntryPoints ids) s := by
  induction ids generalizing s with
  | nil => rfl
  | cons id ids ih =>
    rw [visitEntryPoints, Call.ofEntryPoints, List.map_cons, visitAll, Call.visit]
    cases visitDefinition c id ⟨id, .entryPoint⟩ s with
    | error e => rfl
    | ok t => exact ih t.1

/-- The rules give the outcome that the walk computes. -/
theorem eq_visit : (∀ {call s resolved result}, Evaluates c call s resolved result →
      call.visit c s = result) ∧
    ∀ {calls s resolved result}, EvaluatesAll c calls s resolved result →
      visitAll c calls s = result := by
  refine evaluates_induction ?visited ?system ?undefined ?defined ?reference rfl ?stop ?next
  case visited =>
    intro id origin s hv
    exact outcome_visitDefinition_visited origin hv
  case system =>
    intro id origin s hv hs
    exact outcome_visitDefinition_system origin hv hs
  case undefined =>
    intro id origin s hv hs hn
    exact outcome_visitDefinition_undefined origin hv (by simp [hs]) hn
  case defined =>
    intro id origin s n resolved result hv hs hn h
    rw [Call.visit, outcome_visitDefinition_defined origin hv (by simp [hs]) hn,
      outcome_visitReferences, h]
  case reference =>
    intro r origin s resolved result h
    rw [visit_reference, h]
  case stop =>
    intro call rest s resolved e h
    rw [visitAll, h]
    rfl
  case next =>
    intro call rest s t resolved later result h hrest
    rw [visitAll, h]
    exact hrest

end ApiTypings.Discovery

namespace ApiTypings

open Discovery

/-- Discovery ends on every catalog. Each call has less to do than the one that makes it, counted by
the defined identities that were not visited and then by the reference that is still to walk, so the
calls are well founded. The calls for the entry points have an outcome by the rules, and any such
outcome is that of discovery, with each identity looked up at most once: just the types that are
found or, if discovery fails, defined types outside the library and then the missing one. -/
theorem discover_terminates (c : Catalog) (entryPoints : List Identity) :
    (∀ inner outer, Calls c inner outer →
      Prod.Lex (· < ·) (· < ·) (remaining c inner) (remaining c outer)) ∧
    WellFounded (Calls c) ∧
    (∃ resolved result, EvaluatesAll c (Call.ofEntryPoints entryPoints) {} resolved result) ∧
    ∀ resolved result, EvaluatesAll c (Call.ofEntryPoints entryPoints) {} resolved result →
      discover c entryPoints = result.map graph ∧ resolved.Nodup ∧
      resolved.length ≤ (c.identities.filter (!·.isSystem)).length + 1 ∧
      (∀ g, discover c entryPoints = .ok g → resolved = g.identities) ∧
      ∀ e, discover c entryPoints = .error e → ∃ found, resolved = found ++ [e.missing] ∧
        ∀ id ∈ found, id ∈ c.identities ∧ id.isSystem = false := by
  refine ⟨fun _ _ => remaining_lt_of_calls, wellFounded_calls c, ?_, ?_⟩
  · exact exists_evaluatesAll fun _ call _ _ t _ _ => exists_evaluates c (call, t)
  · intro resolved result h
    have hresult : discover c entryPoints = result.map graph := by
      rw [discover, visitEntryPoints_eq_visitAll, eq_visit.2 h]
    have hbound : ∀ found : List Identity, found.Nodup →
        (∀ id ∈ found, id ∉ ({} : Discovery).visited ∧ id.isSystem = false ∧ id ∈ c.identities) →
        found.length ≤ (c.identities.filter (!·.isSystem)).length := by
      intro found hnodup hfound
      refine hnodup.length_le_of_subset fun id hid => List.mem_filter.mpr ?_
      obtain ⟨_, hs, hdefined⟩ := hfound id hid
      exact ⟨hdefined, by rw [hs]; rfl⟩
    refine ⟨hresult, ?_⟩
    rw [hresult]
    -- A run that fails looks one more identity up, which is not defined.
    cases accounts.2 h with
    | ok hnodup hfresh _ _ hnodes =>
      refine ⟨hnodup, Nat.le_succ_of_le (hbound _ hnodup hfresh), ?_, ?_⟩
      · rintro g ⟨⟩
        exact hnodes.symm
      · intro e he
        cases he
    | @error found e hnodup hfresh hmissing hs hn =>
      refine ⟨?_, ?_, ?_, ?_⟩
      · refine hnodup.append (List.nodup_singleton _) fun id hid hid' => hn ?_
        rw [← List.mem_singleton.mp hid']
        exact (hfresh id hid).2.2
      · rw [List.length_append]
        exact Nat.succ_le_succ (hbound _ hnodup hfresh)
      · intro g hg
        cases hg
      · rintro _ ⟨⟩
        exact ⟨found, rfl, fun id hid => (hfresh id hid).2.symm⟩

end ApiTypings
