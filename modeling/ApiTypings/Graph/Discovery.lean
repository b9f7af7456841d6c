import ApiTypings.Graph.Node

/-!
# Discovery of the types to write

From the entry points, discovery walks every reference of every defined type it meets, depth
first, and records a type before anything that it refers to. Types of the platform's library are
never recorded or walked into, but the arguments of their uses are. An identity is visited once,
which is why the walk ends on every catalog: a type is resolved only while unvisited, and a
reference is finite.
-/

namespace ApiTypings

/-- A type without metadata, and the place that refers to it. -/
structure Unresolved where
  /-- The type whose member refers to the missing one. -/
  declaring : Identity
  member : Member
  missing : Identity
  deriving DecidableEq, Repr

/-- The wording of an unresolved type. -/
def Unresolved.message (u : Unresolved) : String :=
  "cannot resolve metadata for `" ++ u.missing.display ++ "` referenced by `" ++
    u.declaring.display ++ "` (" ++ u.member.label ++
    "); check that every catalog it depends on is part of the inputs"

/-- A place that may refer to a type. -/
structure Origin where
  declaring : Identity
  member : Member
  deriving DecidableEq, Repr

/-- The failure that a missing type causes at an origin. -/
def Origin.unresolved (o : Origin) (missing : Identity) : Unresolved :=
  ⟨o.declaring, o.member, missing⟩

/-- The identities visited so far and the nodes found, in the order of their discovery. -/
structure Discovery where
  visited : List Identity := []
  nodes : List Node := []
  deriving Inhabited

namespace Discovery

/-- Marks an identity as visited; tells whether it is new. -/
def visit (s : Discovery) (id : Identity) : Bool × Discovery :=
  if id ∈ s.visited then (false, s) else (true, { s with visited := id :: s.visited })

/-- The state with an identity marked as visited. -/
def mark (s : Discovery) (id : Identity) : Discovery := { s with visited := id :: s.visited }

/-- The state with a node added at the end. -/
def record (s : Discovery) (n : Node) : Discovery := { s with nodes := s.nodes ++ [n] }

/-- The graph of the nodes found. -/
def graph (s : Discovery) : Graph := ⟨s.nodes⟩

/-- The number of defined identities that have not been visited. -/
def unvisited (c : Catalog) (s : Discovery) : Nat :=
  (c.identities.filter (· ∉ s.visited)).length

/-- A state in which nothing that was visited in `s` is unvisited. -/
abbrev After (s : Discovery) := { t : Discovery // ∀ id ∈ s.visited, id ∈ t.visited }

/-- The state itself, as a later state. -/
def After.refl (s : Discovery) : After s := ⟨s, fun _ h => h⟩

/-- A state after a later state is a later state. -/
def After.trans {s : Discovery} (t : After s) (u : After t.1) : After s :=
  ⟨u.1, fun id h => u.2 id (t.2 id h)⟩

/-- Later states leave no more identities to visit. -/
theorem unvisited_le {c : Catalog} {s : Discovery} (t : After s) :
    unvisited c t.1 ≤ unvisited c s := by
  rw [unvisited, unvisited, ← List.countP_eq_length_filter, ← List.countP_eq_length_filter]
  refine List.countP_mono_left fun id _ h => ?_
  simp only [decide_eq_true_eq] at h ⊢
  exact fun hs => h (t.2 id hs)

/-- Marking a defined identity leaves fewer identities to visit. -/
theorem unvisited_mark_lt {c : Catalog} {s : Discovery} {id : Identity}
    (hd : id ∈ c.identities) (hv : id ∉ s.visited) :
    unvisited c (s.mark id) < unvisited c s := by
  have hsub : ((c.identities.filter (· ∉ (s.mark id).visited))) =
      (c.identities.filter (· ∉ s.visited)).filter (· ≠ id) := by
    rw [List.filter_filter]
    refine List.filter_congr fun x _ => ?_
    simp [mark]
  rw [unvisited, unvisited, hsub]
  have hmem : id ∈ c.identities.filter (· ∉ s.visited) := by simp [hd, hv]
  exact List.length_filter_lt_length_iff_exists.mpr ⟨id, hmem, by simp⟩

mutual

/-- Visits an identity: records its node if it is new and defined, and walks its references. -/
def visitDefinition (c : Catalog) (id : Identity) (origin : Origin) (s : Discovery) :
    Except Unresolved (After s) :=
  if hv : id ∈ s.visited then .ok (.refl s)
  else
    have marked : ∀ x ∈ s.visited, x ∈ (s.mark id).visited := fun _ h => List.mem_cons_of_mem _ h
    if id.isSystem then .ok ⟨s.mark id, marked⟩
    else
      match hn : Node.resolve? c id with
      | none => .error (origin.unresolved id)
      | some node =>
        have := unvisited_mark_lt (Node.mem_identities_of_resolve? hn) hv
        match visitReferences c id node.references ((s.mark id).record node) with
        | .error e => .error e
        | .ok t => .ok ⟨t.1, fun x h => t.2 x (marked x h)⟩
termination_by (unvisited c s, 0)
decreasing_by exact Prod.Lex.left _ _ this

/-- Visits everything that a reference names, outermost first. -/
def visitReference (c : Catalog) (r : Reference) (origin : Origin) (s : Discovery) :
    Except Unresolved (After s) :=
  match r with
  | .param _ => .ok (.refl s)
  | .array element => visitReference c element origin s
  | .nullable inner => visitReference c inner origin s
  | .named id args =>
    match visitDefinition c id origin s with
    | .error e => .error e
    | .ok t =>
      match visitArguments c args origin t.1 with
      | .error e => .error e
      | .ok u => .ok (t.trans u)
termination_by (unvisited c s, r.size)
decreasing_by
  all_goals simp only [Reference.size]
  · exact Prod.Lex.right _ (by omega)
  · exact Prod.Lex.right _ (by omega)
  · exact Prod.Lex.right _ (by omega)
  · rcases Nat.lt_or_eq_of_le (unvisited_le (c := c) t) with h | h
    · exact Prod.Lex.left _ _ h
    · exact h ▸ Prod.Lex.right _ (by omega)

/-- Visits several references of one origin in their order. -/
def visitArguments (c : Catalog) (rs : List Reference) (origin : Origin) (s : Discovery) :
    Except Unresolved (After s) :=
  match rs with
  | [] => .ok (.refl s)
  | r :: rest =>
    match visitReference c r origin s with
    | .error e => .error e
    | .ok t =>
      match visitArguments c rest origin t.1 with
      | .error e => .error e
      | .ok u => .ok (t.trans u)
termination_by (unvisited c s, Reference.sizeOfAll rs)
decreasing_by
  all_goals simp only [Reference.sizeOfAll]
  · exact Prod.Lex.right _ (by omega)
  · rcases Nat.lt_or_eq_of_le (unvisited_le (c := c) t) with h | h
    · exact Prod.Lex.left _ _ h
    · exact h ▸ Prod.Lex.right _ (by omega)

/-- Visits the references of a type in their order, each with its member as origin. -/
def visitReferences (c : Catalog) (declaring : Identity) (refs : List (Reference × Member))
    (s : Discovery) : Except Unresolved (After s) :=
  match refs with
  | [] => .ok (.refl s)
  | (r, member) :: rest =>
    match visitReference c r ⟨declaring, member⟩ s with
    | .error e => .error e
    | .ok t =>
      match visitReferences c declaring rest t.1 with
      | .error e => .error e
      | .ok u => .ok (t.trans u)
termination_by (unvisited c s, Reference.sizeOfAll (refs.map Prod.fst))
decreasing_by
  all_goals simp only [List.map_cons, Reference.sizeOfAll]
  · exact Prod.Lex.right _ (by omega)
  · rcases Nat.lt_or_eq_of_le (unvisited_le (c := c) t) with h | h
    · exact Prod.Lex.left _ _ h
    · exact h ▸ Prod.Lex.right _ (by omega)

end

/-- Visits entry points in their order. -/
def visitEntryPoints (c : Catalog) (s : Discovery) : List Identity → Except Unresolved Discovery
  | [] => .ok s
  | id :: ids =>
    match visitDefinition c id ⟨id, .entryPoint⟩ s with
    | .error e => .error e
    | .ok t => visitEntryPoints c t.1 ids

end Discovery

/-- The graph of every type outside the platform's library that the entry points reach, or the
first reference to a type that the catalog does not define. -/
def discover (c : Catalog) (entryPoints : List Identity) : Except Unresolved Graph :=
  (Discovery.visitEntryPoints c {} entryPoints).map Discovery.graph

end ApiTypings
