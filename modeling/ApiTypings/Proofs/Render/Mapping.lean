import ApiTypings.Proofs.Discovery.Closure
import ApiTypings.Proofs.Render.Refusal

/-!
# Mapping succeeds on mappable references

In the graph of a run a type is found when it is discovered, and never when it is one of the
library, so the two kinds of named types are mapped by different branches. The mapping succeeds
exactly on the references whose parts have a form.
-/

namespace ApiTypings

open Reference (Part)

variable {c : Catalog}

section Graph

variable {g : Graph} (h : discover c c.entryPoints = .ok g)

include h

/-- A discovered graph contains what its catalog discovers. -/
theorem contains_iff_discovers {id : Identity} : g.contains id = true ↔ c.Discovers id :=
  Graph.contains_iff.trans (mem_identities_iff_reachable h id)

/-- A discovered type is in the graph with the node of its definition. -/
theorem exists_node?_of_discovers {id : Identity} (hid : c.Discovers id) :
    ∃ d, c.get? id = some d ∧ g.node? id = some (.ofDefinition d) := by
  have hmem := (mem_identities_iff_reachable h id).mpr hid
  obtain ⟨n, hn⟩ := Option.isSome_iff_exists.mp ((contains_iff_discovers h).mpr hid)
  have hresolve := node?_eq_resolve? h hmem
  rw [hn] at hresolve
  obtain ⟨d, hd, rfl⟩ := Option.map_eq_some_iff.mp hresolve.symm
  exact ⟨d, hd, hn⟩

end Graph

/-- No type of the library is in the graph. -/
theorem node?_of_isSystem {entryPoints : List Identity} {g : Graph}
    (h : discover c entryPoints = .ok g) {id : Identity} (hs : id.isSystem = true) :
    g.node? id = none := by
  cases hn : g.node? id with
  | none => rfl
  | some n =>
    have hcontains : g.contains id = true := Option.isSome_iff_exists.mpr ⟨n, hn⟩
    have hid := (mem_identities_iff_reachable h id).mp (Graph.contains_iff.mp hcontains)
    rw [hid.2] at hs
    cases hs

namespace Render.Context

section HasForm

variable {ctx : Context} (h : discover c c.entryPoints = .ok ctx.graph) (node : Node) {n : Nat}
  {id : Identity} (args : List Reference)

include h

/-- A discovered type has a form unless it is a delegate. -/
theorem hasForm_discovered_iff (hid : c.Discovers id) (hs : id.isSystem = false) :
    (Reference.named id args).HasForm c n ↔
      ∀ reason, ¬ ctx.Refuses node (.named id args) reason := by
  obtain ⟨d, hd, hnode⟩ := exists_node?_of_discovers h hid
  rw [Reference.HasForm]
  constructor
  · rintro (⟨_, d', hd', hk⟩ | ⟨hsys, _⟩) reason hrefuses
    · rw [hd] at hd'
      cases hd'
      cases hrefuses with
      | unlisted hsys _ =>
        rw [hs] at hsys
        cases hsys
      | undiscovered _ hnone =>
        rw [hnode] at hnone
        cases hnone
      | delegate htarget hdelegate =>
        rw [hnode] at htarget
        cases htarget
        exact hk hdelegate
    · rw [hs] at hsys
      cases hsys
  · intro hall
    exact .inl ⟨hid, d, hd, fun hk => hall _ (.delegate hnode hk)⟩

/-- A library type has a form when the table has it. -/
theorem hasForm_library_iff (hs : id.isSystem = true) :
    (Reference.named id args).HasForm c n ↔
      ∀ reason, ¬ ctx.Refuses node (.named id args) reason := by
  have hnode := node?_of_isSystem h hs
  rw [Reference.HasForm]
  constructor
  · rintro (⟨hid, _⟩ | ⟨_, hsome⟩) reason hrefuses
    · rw [hid.2] at hs
      cases hs
    · cases hrefuses with
      | unlisted _ hnone =>
        rw [hnone] at hsome
        cases hsome
      | undiscovered hsys _ =>
        rw [hs] at hsys
        cases hsys
      | delegate htarget _ =>
        rw [hnode] at htarget
        cases htarget
  · intro hall
    refine .inr ⟨hs, ?_⟩
    by_contra hnone
    exact hall _ (.unlisted hs (by simpa using hnone))

/-- A part has a form when nothing stands against it in the graph of the run. -/
theorem hasForm_iff {p : Reference}
    (hids : ∀ id ∈ p.identities, id.isSystem = false → c.Discovers id) :
    p.HasForm c node.genericParameters.length ↔ ∀ reason, ¬ ctx.Refuses node p reason := by
  cases p with
  | param position =>
    rw [Reference.HasForm, ← Nat.not_le]
    constructor
    · intro hlt reason hrefuses
      cases hrefuses with
      | parameter hle => exact hlt hle
    · exact fun hall hle => hall _ (.parameter hle)
  | array element => exact ⟨fun _ _ => not_refuses_array, fun _ => trivial⟩
  | nullable inner => exact ⟨fun _ _ => not_refuses_nullable, fun _ => trivial⟩
  | named id args =>
    cases hs : id.isSystem with
    | false => exact hasForm_discovered_iff h node args (hids id (List.mem_cons_self ..) hs) hs
    | true => exact hasForm_library_iff h node args hs

end HasForm

/-- A reference that can be mapped is one that is mapped. -/
theorem exists_map_iff {ctx : Context} (h : discover c c.entryPoints = .ok ctx.graph)
    (node : Node) (member : Member) {r : Reference} (hr : r.WellFormed)
    (hids : ∀ id ∈ r.identities, id.isSystem = false → c.Discovers id) :
    (∃ t, ctx.map node member r = .ok t) ↔ r.Mappable c node.genericParameters.length := by
  rw [exists_map_iff_allows (fun _ => node?_of_isSystem h) hr, Allows, Reference.Mappable]
  have hform : ∀ p, Part p r →
      (p.HasForm c node.genericParameters.length ↔ ∀ reason, ¬ ctx.Refuses node p reason) :=
    fun p hp => hasForm_iff h node fun id hid => hids id (hp.identities_subset hid)
  constructor
  · exact fun hallows p hp => (hform p hp).mpr fun reason => hallows p reason hp
  · exact fun hmappable p reason hp => (hform p hp).mp (hmappable p hp) reason

end Render.Context

end ApiTypings
