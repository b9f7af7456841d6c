import ApiTypings.Graph.Evaluation
import ApiTypings.Proofs.Discovery.Closure
import Mathlib.Data.List.Nodup

/-!
# What a walk looks up

By the rules of the walk an identity is looked up when it is visited for the first time and lies
outside the library. So the lookups of a walk are those of the nodes that it adds, each once and in
their order, and behind them that of the missing identity if it fails.
-/

namespace ApiTypings.Discovery

variable {c : Catalog} {calls : List Call} {s t : Discovery} {resolved later : List Identity}
  {result : Except Unresolved Discovery}

/-- Induction over the rules, for a call and for a list of calls at once. -/
theorem evaluates_induction {motive : Call → Discovery → List Identity →
      Except Unresolved Discovery → Prop}
    {motiveAll : List Call → Discovery → List Identity → Except Unresolved Discovery → Prop}
    (visited : ∀ {id origin s}, id ∈ s.visited → motive (.definition id origin) s [] (.ok s))
    (system : ∀ {id origin s}, id ∉ s.visited → id.isSystem = true →
      motive (.definition id origin) s [] (.ok (s.mark id)))
    (undefined : ∀ {id origin s}, id ∉ s.visited → id.isSystem = false →
      Node.resolve? c id = none →
      motive (.definition id origin) s [id] (.error (origin.unresolved id)))
    (defined : ∀ {id origin s n resolved result}, id ∉ s.visited → id.isSystem = false →
      Node.resolve? c id = some n →
      motiveAll (Call.ofReferences id n.references) ((s.mark id).record n) resolved result →
      motive (.definition id origin) s (id :: resolved) result)
    (reference : ∀ {r origin s resolved result},
      motiveAll (Call.ofReference origin r) s resolved result →
      motive (.reference r origin) s resolved result)
    (nil : ∀ {s}, motiveAll [] s [] (.ok s))
    (stop : ∀ {call rest s resolved e}, motive call s resolved (.error e) →
      motiveAll (call :: rest) s resolved (.error e))
    (next : ∀ {call rest s t resolved later result}, motive call s resolved (.ok t) →
      motiveAll rest t later result → motiveAll (call :: rest) s (resolved ++ later) result) :
    (∀ {call s resolved result}, Evaluates c call s resolved result →
      motive call s resolved result) ∧
    ∀ {calls s resolved result}, EvaluatesAll c calls s resolved result →
      motiveAll calls s resolved result := by
  constructor
  · exact @Evaluates.rec c (fun call s resolved result _ => motive call s resolved result)
      (fun calls s resolved result _ => motiveAll calls s resolved result) visited system undefined
      (fun hv hs hn _ => defined hv hs hn) (fun _ => reference) nil (fun _ => stop)
      (fun _ _ => next)
  · exact @EvaluatesAll.rec c (fun call s resolved result _ => motive call s resolved result)
      (fun calls s resolved result _ => motiveAll calls s resolved result) visited system undefined
      (fun hv hs hn _ => defined hv hs hn) (fun _ => reference) nil (fun _ => stop)
      (fun _ _ => next)

/-- What a walk from `s` has looked up: identities outside the library that are defined and were
not visited, each once and now with a node, and, if it failed, the missing one behind them. -/
inductive Accounts (c : Catalog) (s : Discovery) :
    List Identity → Except Unresolved Discovery → Prop where
  | ok {found t} : found.Nodup →
      (∀ id ∈ found, id ∉ s.visited ∧ id.isSystem = false ∧ id ∈ c.identities) →
      s.visited ⊆ t.visited → found ⊆ t.visited →
      t.nodes.map Node.identity = s.nodes.map Node.identity ++ found →
      Accounts c s found (.ok t)
  | error {found e} : found.Nodup →
      (∀ id ∈ found, id ∉ s.visited ∧ id.isSystem = false ∧ id ∈ c.identities) →
      e.missing ∉ s.visited → e.missing.isSystem = false → e.missing ∉ c.identities →
      Accounts c s (found ++ [e.missing]) (.error e)

namespace Accounts

/-- Without calls nothing is looked up. -/
theorem refl : Accounts c s [] (.ok s) :=
  .ok List.nodup_nil nofun (List.Subset.refl _) (List.nil_subset _) (by simp)

/-- A walk and one that goes on from where it ended. -/
theorem trans (h : Accounts c s resolved (.ok t)) (h' : Accounts c t later result) :
    Accounts c s (resolved ++ later) result := by
  cases h with
  | ok hnodup hfresh hkept hvisited hnodes =>
    have hlater : ∀ found : List Identity,
        (∀ id ∈ found, id ∉ t.visited ∧ id.isSystem = false ∧ id ∈ c.identities) →
        ∀ id ∈ resolved ++ found, id ∉ s.visited ∧ id.isSystem = false ∧ id ∈ c.identities := by
      intro found hfound
      rw [List.forall_mem_append]
      exact ⟨hfresh, fun id hid => ⟨fun hv => (hfound id hid).1 (hkept hv), (hfound id hid).2⟩⟩
    have hdisjoint : ∀ found : List Identity,
        (∀ id ∈ found, id ∉ t.visited ∧ id.isSystem = false ∧ id ∈ c.identities) →
        resolved.Disjoint found := by
      intro found hfound id hid hid'
      exact (hfound id hid').1 (hvisited hid)
    cases h' with
    | ok hnodup' hfresh' hkept' hvisited' hnodes' =>
      refine .ok (hnodup.append hnodup' (hdisjoint _ hfresh')) (hlater _ hfresh')
        (List.Subset.trans hkept hkept') ?_ ?_
      · exact List.append_subset.mpr ⟨List.Subset.trans hvisited hkept', hvisited'⟩
      · rw [hnodes', hnodes, List.append_assoc]
    | error hnodup' hfresh' hmissing hs hn =>
      rw [← List.append_assoc]
      exact .error (hnodup.append hnodup' (hdisjoint _ hfresh')) (hlater _ hfresh')
        (fun hv => hmissing (hkept hv)) hs hn

/-- A type that is expanded has been looked up and is recorded. -/
theorem expanded {id : Identity} {n : Node} (hv : id ∉ s.visited) (hs : id.isSystem = false)
    (hn : Node.resolve? c id = some n) : Accounts c s [id] (.ok ((s.mark id).record n)) := by
  refine .ok (List.nodup_singleton id) ?_ (List.subset_cons_self id s.visited) ?_ ?_
  · rintro x hx
    rw [List.mem_singleton.mp hx]
    exact ⟨hv, hs, Node.mem_identities_of_resolve? hn⟩
  · simp [mark, record]
  · simp [mark, record, Node.identity_of_resolve? hn]

end Accounts

/-- Every evaluation accounts for the identities it looks up. -/
theorem accounts : (∀ {call s resolved result}, Evaluates c call s resolved result →
      Accounts c s resolved result) ∧
    ∀ {calls s resolved result}, EvaluatesAll c calls s resolved result →
      Accounts c s resolved result := by
  refine evaluates_induction ?visited ?system ?undefined ?defined id .refl id .trans
  case visited =>
    intro id origin s _
    exact .refl
  case system =>
    intro id origin s _ _
    exact .ok List.nodup_nil nofun (List.subset_cons_self id s.visited) (List.nil_subset _)
      (by simp [mark])
  case undefined =>
    intro id origin s hv hs hn
    have hdefined : id ∉ c.identities := by
      rw [← Node.resolve?_isSome_iff, hn]
      exact Bool.false_ne_true
    exact .error (e := origin.unresolved id) List.nodup_nil nofun hv hs hdefined
  case defined =>
    intro id origin s n resolved result hv hs hn h
    exact (Accounts.expanded hv hs hn).trans h

/-- What was visited stays visited. -/
theorem visited_subset (h : EvaluatesAll c calls s resolved (.ok t)) : s.visited ⊆ t.visited := by
  cases accounts.2 h with
  | ok _ _ hkept _ _ => exact hkept

end ApiTypings.Discovery
