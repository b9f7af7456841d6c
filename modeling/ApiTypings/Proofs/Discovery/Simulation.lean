import ApiTypings.Graph.Worklist

/-!
# The recursive walk and its worklist

Visiting an identity, a reference or several of either does exactly what the worklist does with
the same identities at the front of its list: same nodes in the same order, same failure. The
recursion is therefore opened once, here; every further fact about discovery is an invariant of
the worklist.
-/

namespace ApiTypings.Discovery

open Worklist

/-- The state that a visit ends in, without the proof that it is a later one. -/
def outcome {s : Discovery} (visit : Except Unresolved (After s)) : Except Unresolved Discovery :=
  visit.map Subtype.val

@[simp] theorem outcome_ok {s : Discovery} (t : After s) : outcome (.ok t) = .ok t.1 := rfl

@[simp] theorem outcome_error {s : Discovery} (e : Unresolved) :
    outcome (.error e : Except Unresolved (After s)) = .error e := rfl

/-- References of one type as pending identities. -/
def pendingOf (declaring : Identity) (refs : List (Reference × Member)) :
    List (Identity × Origin) :=
  refs.flatMap fun (r, member) => r.identities.map (·, ⟨declaring, member⟩)

private theorem pending_eq_pendingOf {c : Catalog} {id : Identity} {n : Node}
    (h : Node.resolve? c id = some n) : n.pending = pendingOf id n.references := by
  rw [Node.pending, Node.identity_of_resolve? h]
  rfl

/-- With nothing pending a run ends. -/
theorem run_nil (c : Catalog) (s : Discovery) : run c [] s = .ok s := by
  rw [run]

section Steps

variable {c : Catalog} {id : Identity} {s : Discovery} (origin : Origin)

/-- An identity that was visited before is skipped. -/
theorem run_visited (hv : id ∈ s.visited) (rest : List (Identity × Origin)) :
    run c ((id, origin) :: rest) s = run c rest s := by
  rw [run, dif_pos hv]

/-- A system type is only marked. -/
theorem run_system (hv : id ∉ s.visited) (hs : id.isSystem = true)
    (rest : List (Identity × Origin)) :
    run c ((id, origin) :: rest) s = run c rest (s.mark id) := by
  rw [run, dif_neg hv, if_pos hs]

/-- An identity without a definition ends the run. -/
theorem run_undefined (hv : id ∉ s.visited) (hs : ¬ id.isSystem = true)
    (hn : Node.resolve? c id = none) (rest : List (Identity × Origin)) :
    run c ((id, origin) :: rest) s = .error (origin.unresolved id) := by
  rw [run, dif_neg hv, if_neg hs]
  split
  · rfl
  · next he => rw [hn] at he; cases he

/-- A definition is recorded, and what it names comes next. -/
theorem run_defined {n : Node} (hv : id ∉ s.visited) (hs : ¬ id.isSystem = true)
    (hn : Node.resolve? c id = some n) (rest : List (Identity × Origin)) :
    run c ((id, origin) :: rest) s = run c (n.pending ++ rest) ((s.mark id).record n) := by
  rw [run, dif_neg hv, if_neg hs]
  split
  · next he => rw [hn] at he; cases he
  · next n' he =>
    obtain rfl : n = n' := Option.some.inj (hn.symm.trans he)
    rfl

end Steps

section Induction

variable {c : Catalog} {motive : List (Identity × Origin) → Discovery → Prop}
  (visited : ∀ {id : Identity} (origin : Origin) {rest : List (Identity × Origin)} {s : Discovery},
    id ∈ s.visited → motive rest s → motive ((id, origin) :: rest) s)
  (system : ∀ {id : Identity} (origin : Origin) {rest : List (Identity × Origin)} {s : Discovery},
    id ∉ s.visited → id.isSystem = true → motive rest (s.mark id) →
    motive ((id, origin) :: rest) s)
  (defined : ∀ {id : Identity} (origin : Origin) {rest : List (Identity × Origin)} {s : Discovery}
    {n : Node}, id ∉ s.visited → id.isSystem = false → Node.resolve? c id = some n →
    motive (n.pending ++ rest) ((s.mark id).record n) → motive ((id, origin) :: rest) s)
  {pending : List (Identity × Origin)} {s : Discovery}

include visited system defined

/-- Induction over a run that ends well, with a case for each kind of step. -/
theorem run_ok_induction {t : Discovery} (nil : motive [] t) (h : run c pending s = .ok t) :
    motive pending s := by
  induction pending, s using run.induct c with
  | case1 s =>
    rw [run_nil] at h
    cases h
    exact nil
  | case2 s id origin rest hv ih =>
    rw [run_visited origin hv] at h
    exact visited origin hv (ih h)
  | case3 s id origin rest hv hs _ ih =>
    rw [run_system origin hv hs] at h
    exact system origin hv hs (ih h)
  | case4 s id origin rest hv hs hn =>
    rw [run_undefined origin hv hs hn] at h
    cases h
  | case5 s id origin rest hv hs n hn _ ih =>
    rw [run_defined origin hv hs hn] at h
    exact defined origin hv (by simpa using hs) hn (ih h)

/-- Induction over a run that fails, from the identity at which it stops. -/
theorem run_error_induction {e : Unresolved}
    (undefined : ∀ {id : Identity} (origin : Origin) {rest : List (Identity × Origin)}
      {s : Discovery}, id ∉ s.visited → id.isSystem = false → Node.resolve? c id = none →
      origin.unresolved id = e → motive ((id, origin) :: rest) s)
    (h : run c pending s = .error e) : motive pending s := by
  induction pending, s using run.induct c with
  | case1 s =>
    rw [run_nil] at h
    cases h
  | case2 s id origin rest hv ih =>
    rw [run_visited origin hv] at h
    exact visited origin hv (ih h)
  | case3 s id origin rest hv hs _ ih =>
    rw [run_system origin hv hs] at h
    exact system origin hv hs (ih h)
  | case4 s id origin rest hv hs hn =>
    rw [run_undefined origin hv hs hn] at h
    exact undefined origin hv (by simpa using hs) hn (Except.error.inj h)
  | case5 s id origin rest hv hs n hn _ ih =>
    rw [run_defined origin hv hs hn] at h
    exact defined origin hv (by simpa using hs) hn (ih h)

end Induction

section Visits

variable {c : Catalog} {id : Identity} {s : Discovery} (origin : Origin)

/-- A visit to an identity that was visited before changes nothing. -/
theorem outcome_visitDefinition_visited (hv : id ∈ s.visited) :
    outcome (visitDefinition c id origin s) = .ok s := by
  rw [visitDefinition, dif_pos hv]
  rfl

/-- A visit to a system type marks it. -/
theorem outcome_visitDefinition_system (hv : id ∉ s.visited) (hs : id.isSystem = true) :
    outcome (visitDefinition c id origin s) = .ok (s.mark id) := by
  rw [visitDefinition, dif_neg hv, if_pos hs]
  rfl

/-- A visit to an identity without a definition fails. -/
theorem outcome_visitDefinition_undefined (hv : id ∉ s.visited) (hs : ¬ id.isSystem = true)
    (hn : Node.resolve? c id = none) :
    outcome (visitDefinition c id origin s) = .error (origin.unresolved id) := by
  rw [visitDefinition, dif_neg hv, if_neg hs]
  split
  · rfl
  · next he => rw [hn] at he; cases he

/-- A visit to a definition records it and visits its references. -/
theorem outcome_visitDefinition_defined {n : Node} (hv : id ∉ s.visited)
    (hs : ¬ id.isSystem = true) (hn : Node.resolve? c id = some n) :
    outcome (visitDefinition c id origin s) =
      outcome (visitReferences c id n.references ((s.mark id).record n)) := by
  rw [visitDefinition, dif_neg hv, if_neg hs]
  split
  · next he => rw [hn] at he; cases he
  · next n' he =>
    obtain rfl : n = n' := Option.some.inj (hn.symm.trans he)
    cases visitReferences c id n.references ((s.mark id).record n) <;> rfl

/-- A visit to a named type visits its definition and then its arguments. -/
theorem outcome_visitReference_named (args : List Reference) :
    outcome (visitReference c (.named id args) origin s) =
      (outcome (visitDefinition c id origin s)).bind fun t =>
        outcome (visitArguments c args origin t) := by
  rw [visitReference]
  cases hd : visitDefinition c id origin s with
  | error e => rfl
  | ok t =>
    simp only [outcome_ok, Except.bind]
    cases visitArguments c args origin t.1 <;> rfl

/-- Arguments are visited one after the other. -/
theorem outcome_visitArguments_cons (r : Reference) (rs : List Reference) :
    outcome (visitArguments c (r :: rs) origin s) =
      (outcome (visitReference c r origin s)).bind fun t =>
        outcome (visitArguments c rs origin t) := by
  rw [visitArguments]
  cases hd : visitReference c r origin s with
  | error e => rfl
  | ok t =>
    simp only [outcome_ok, Except.bind]
    cases visitArguments c rs origin t.1 <;> rfl

/-- References are visited one after the other. -/
theorem outcome_visitReferences_cons (r : Reference) (member : Member)
    (refs : List (Reference × Member)) :
    outcome (visitReferences c id ((r, member) :: refs) s) =
      (outcome (visitReference c r ⟨id, member⟩ s)).bind fun t =>
        outcome (visitReferences c id refs t) := by
  rw [visitReferences]
  cases hd : visitReference c r ⟨id, member⟩ s with
  | error e => rfl
  | ok t =>
    simp only [outcome_ok, Except.bind]
    cases visitReferences c id refs t.1 <;> rfl

end Visits

/-! ## Visits as runs -/

/-- The worklist runs through pending identities as a visit does, up to those behind them. -/
def RunsAs (c : Catalog) (pending : List (Identity × Origin)) (s : Discovery)
    (visit : Except Unresolved Discovery) : Prop :=
  ∀ rest, run c (pending ++ rest) s = visit.bind (run c rest)

section RunsAs

variable {c : Catalog} {id : Identity} {s : Discovery} {origin : Origin}

/-- With nothing to walk over nothing changes. -/
theorem RunsAs.nil (c : Catalog) (s : Discovery) : RunsAs c [] s (.ok s) := fun _ => rfl

/-- Of two sequences the first runs, and then the second unless the first failed. -/
theorem RunsAs.append {xs ys : List (Identity × Origin)} {first : Except Unresolved (After s)}
    {next : Discovery → Except Unresolved Discovery} (hxs : RunsAs c xs s (outcome first))
    (hys : ∀ later, first = .ok later → RunsAs c ys later.1 (next later.1)) :
    RunsAs c (xs ++ ys) s ((outcome first).bind next) := by
  intro rest
  rw [List.append_assoc, hxs]
  cases first with
  | error e => rfl
  | ok later => exact hys later rfl rest

/-- A definition is visited as the worklist visits it, if its references are. -/
theorem runsAs_visitDefinition_defined {n : Node} (hv : id ∉ s.visited) (hs : ¬ id.isSystem = true)
    (hn : Node.resolve? c id = some n)
    (h : RunsAs c (pendingOf id n.references) ((s.mark id).record n)
      (outcome (visitReferences c id n.references ((s.mark id).record n)))) :
    RunsAs c [(id, origin)] s (outcome (visitDefinition c id origin s)) := by
  intro rest
  rw [outcome_visitDefinition_defined origin hv hs hn, ← h rest, ← pending_eq_pendingOf hn]
  exact run_defined origin hv hs hn rest

private theorem runsAs_visitReferences_cons {r : Reference} {member : Member}
    {refs : List (Reference × Member)} (hr : RunsAs c (r.identities.map (·, ⟨id, member⟩)) s
      (outcome (visitReference c r ⟨id, member⟩ s)))
    (hrefs : ∀ later, visitReference c r ⟨id, member⟩ s = .ok later →
      RunsAs c (pendingOf id refs) later.1 (outcome (visitReferences c id refs later.1))) :
    RunsAs c (pendingOf id ((r, member) :: refs)) s
      (outcome (visitReferences c id ((r, member) :: refs) s)) := by
  rw [outcome_visitReferences_cons]
  exact hr.append hrefs

private theorem runsAs_visitReference_named {args : List Reference}
    (hid : RunsAs c [(id, origin)] s (outcome (visitDefinition c id origin s)))
    (hargs : ∀ later, visitDefinition c id origin s = .ok later →
      RunsAs c ((Reference.identitiesOfAll args).map (·, origin)) later.1
        (outcome (visitArguments c args origin later.1))) :
    RunsAs c ((Reference.named id args).identities.map (·, origin)) s
      (outcome (visitReference c (.named id args) origin s)) := by
  rw [outcome_visitReference_named]
  exact hid.append hargs

private theorem runsAs_visitArguments_cons {r : Reference} {rs : List Reference}
    (hr : RunsAs c (r.identities.map (·, origin)) s (outcome (visitReference c r origin s)))
    (hrs : ∀ later, visitReference c r origin s = .ok later →
      RunsAs c ((Reference.identitiesOfAll rs).map (·, origin)) later.1
        (outcome (visitArguments c rs origin later.1))) :
    RunsAs c ((Reference.identitiesOfAll (r :: rs)).map (·, origin)) s
      (outcome (visitArguments c (r :: rs) origin s)) := by
  rw [outcome_visitArguments_cons, Reference.identitiesOfAll, List.map_append]
  exact hr.append hrs

end RunsAs

/-- Each of the four visits is a run of the worklist on the identities it walks over. -/
theorem run_eq_visits (c : Catalog) :
    (∀ id origin s, RunsAs c [(id, origin)] s (outcome (visitDefinition c id origin s))) ∧
    (∀ declaring refs s,
      RunsAs c (pendingOf declaring refs) s (outcome (visitReferences c declaring refs s))) ∧
    (∀ r origin s,
      RunsAs c (r.identities.map (·, origin)) s (outcome (visitReference c r origin s))) ∧
    (∀ rs origin s, RunsAs c ((Reference.identitiesOfAll rs).map (·, origin)) s
      (outcome (visitArguments c rs origin s))) := by
  -- A visit is split once more by how its second part ends; these cases are proved together.
  apply visitDefinition.mutual_induct
  case case1 =>
    intro id origin s hv
    rw [outcome_visitDefinition_visited origin hv]
    exact run_visited origin hv
  case case2 =>
    intro id origin s hv _ hs
    rw [outcome_visitDefinition_system origin hv hs]
    exact run_system origin hv hs
  case case3 =>
    intro id origin s hv _ hs hn
    rw [outcome_visitDefinition_undefined origin hv hs hn]
    exact run_undefined origin hv hs hn
  case case4 | case5 =>
    intro id origin s hv _ hs node hn _ _ _ ih
    exact runsAs_visitDefinition_defined hv hs hn ih
  case case6 =>
    intro declaring s
    rw [visitReferences]
    exact .nil c s
  case case7 =>
    intro declaring s r member refs e h ih
    exact runsAs_visitReferences_cons ih fun _ hlater => by cases h.symm.trans hlater
  case case8 | case9 =>
    intro declaring s r member refs t h _ _ ih ihs
    exact runsAs_visitReferences_cons ih fun later hlater => by
      cases h.symm.trans hlater
      exact ihs
  case case10 =>
    intro origin s position
    rw [visitReference]
    exact .nil c s
  case case11 | case12 =>
    intro origin s inner ih
    rw [visitReference]
    exact ih
  case case13 =>
    intro origin s id args e h ih
    exact runsAs_visitReference_named ih fun _ hlater => by cases h.symm.trans hlater
  case case14 | case15 =>
    intro origin s id args t h _ _ ih ihs
    exact runsAs_visitReference_named ih fun later hlater => by
      cases h.symm.trans hlater
      exact ihs
  case case16 =>
    intro origin s
    rw [visitArguments]
    exact .nil c s
  case case17 =>
    intro origin s r rs e h ih
    exact runsAs_visitArguments_cons ih fun _ hlater => by cases h.symm.trans hlater
  case case18 | case19 =>
    intro origin s r rs t h _ _ ih ihs
    exact runsAs_visitArguments_cons ih fun later hlater => by
      cases h.symm.trans hlater
      exact ihs

/-- Visiting entry points is a run of the worklist from them. -/
theorem visitEntryPoints_eq_run (c : Catalog) (s : Discovery) (ids : List Identity) :
    visitEntryPoints c s ids = run c (ids.map fun id => (id, ⟨id, .entryPoint⟩)) s := by
  induction ids generalizing s with
  | nil => rw [List.map_nil, run, visitEntryPoints]
  | cons id ids ih =>
    have hrun := (run_eq_visits c).1 id ⟨id, .entryPoint⟩ s
      (ids.map fun id => (id, ⟨id, .entryPoint⟩))
    rw [List.cons_append, List.nil_append] at hrun
    rw [List.map_cons, hrun, visitEntryPoints]
    cases visitDefinition c id ⟨id, .entryPoint⟩ s with
    | error e => rfl
    | ok t => exact ih t.1

end ApiTypings.Discovery
