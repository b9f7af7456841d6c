import ApiTypings.Graph.Discovery

/-!
# Discovery by rules

The calls that the walk makes of itself, and rules for what becomes of a call. A call ends at once,
fails, or makes other calls one after the other; the rules say nothing of why calls come to an end.
They also keep the identities that are looked up in the catalog on the way, in order.
-/

namespace ApiTypings.Discovery

/-- A call of the walk. -/
inductive Call where
  | definition (id : Identity) (origin : Origin)
  | reference (r : Reference) (origin : Origin)

namespace Call

/-- The size of the reference that is still to walk. -/
def size : Call → Nat
  | definition _ _ => 0
  | reference r _ => r.size

/-- The calls that walk over a reference. -/
def ofReference (origin : Origin) : Reference → List Call
  | .param _ => []
  | .array element => [reference element origin]
  | .nullable inner => [reference inner origin]
  | .named id args => definition id origin :: args.map (reference · origin)

/-- The calls that walk over the references of a type, each with its member as origin. -/
def ofReferences (declaring : Identity) (refs : List (Reference × Member)) : List Call :=
  refs.map fun (r, member) => reference r ⟨declaring, member⟩

/-- The calls that visit entry points. -/
def ofEntryPoints (ids : List Identity) : List Call :=
  ids.map fun id => definition id ⟨id, .entryPoint⟩

end Call

mutual

/-- `Evaluates c call s resolved result` says that the call, made in the state `s`, looks up the
identities `resolved` and ends in `result`. -/
inductive Evaluates (c : Catalog) :
    Call → Discovery → List Identity → Except Unresolved Discovery → Prop where
  | visited {id origin s} : id ∈ s.visited → Evaluates c (.definition id origin) s [] (.ok s)
  | system {id origin s} : id ∉ s.visited → id.isSystem = true →
      Evaluates c (.definition id origin) s [] (.ok (s.mark id))
  | undefined {id origin s} : id ∉ s.visited → id.isSystem = false → Node.resolve? c id = none →
      Evaluates c (.definition id origin) s [id] (.error (origin.unresolved id))
  | defined {id origin s n resolved result} : id ∉ s.visited → id.isSystem = false →
      Node.resolve? c id = some n →
      EvaluatesAll c (Call.ofReferences id n.references) ((s.mark id).record n) resolved result →
      Evaluates c (.definition id origin) s (id :: resolved) result
  | reference {r origin s resolved result} :
      EvaluatesAll c (Call.ofReference origin r) s resolved result →
      Evaluates c (.reference r origin) s resolved result

/-- What becomes of calls that are made one after the other; none is made after one that fails. -/
inductive EvaluatesAll (c : Catalog) :
    List Call → Discovery → List Identity → Except Unresolved Discovery → Prop where
  | nil {s} : EvaluatesAll c [] s [] (.ok s)
  | stop {call rest s resolved e} : Evaluates c call s resolved (.error e) →
      EvaluatesAll c (call :: rest) s resolved (.error e)
  | next {call rest s t resolved later result} : Evaluates c call s resolved (.ok t) →
      EvaluatesAll c rest t later result →
      EvaluatesAll c (call :: rest) s (resolved ++ later) result

end

/-- `Calls c (inner, t) (outer, s)` says that the call `outer`, made in the state `s`, makes the
call `inner` in the state `t`. -/
inductive Calls (c : Catalog) : Call × Discovery → Call × Discovery → Prop where
  | definition {id origin s n before call after resolved t} : id ∉ s.visited →
      id.isSystem = false → Node.resolve? c id = some n →
      Call.ofReferences id n.references = before ++ call :: after →
      EvaluatesAll c before ((s.mark id).record n) resolved (.ok t) →
      Calls c (call, t) (.definition id origin, s)
  | reference {r origin s before call after resolved t} :
      Call.ofReference origin r = before ++ call :: after →
      EvaluatesAll c before s resolved (.ok t) → Calls c (call, t) (.reference r origin, s)

end ApiTypings.Discovery
