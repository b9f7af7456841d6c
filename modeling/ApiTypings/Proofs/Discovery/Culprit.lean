import ApiTypings.Proofs.Discovery.Closure

/-!
# The place that a failure names

A pending identity stands in a source: the list of entry points, or what a found node refers to. The
worklist takes a source in its order, so everything that stands in front of a pending identity in
its source was visited or waits in front of it. When the identity at the front is missing, it is
therefore the first one in its source that is, and its origin is the place in which it stands there.
-/

namespace ApiTypings

open Discovery

/-- Whether a type outside the library is not defined. -/
def Catalog.lacks (c : Catalog) (id : Identity) : Bool :=
  !id.isSystem && !decide (id ∈ c.identities)

/-- A catalog lacks what is no system type and is not defined. -/
theorem Catalog.lacks_iff {c : Catalog} {id : Identity} :
    c.lacks id = true ↔ id.isSystem = false ∧ id ∉ c.identities := by
  simp [lacks]

namespace Worklist

variable {c : Catalog} {entryPoints : List Identity}

/-- The lists from which identities become pending. -/
inductive Source (c : Catalog) (entryPoints : List Identity) : List (Identity × Origin) → Prop where
  | entries : Source c entryPoints (entryPoints.map fun id => (id, ⟨id, .entryPoint⟩))
  | node {a n} : Reachable c entryPoints a → a.isSystem = false → Node.resolve? c a = some n →
      Source c entryPoints n.pending

/-- What stands in front of a pending identity in its source was visited, or waits in front of
it. -/
def InOrder (c : Catalog) (entryPoints : List Identity) (pending : List (Identity × Origin))
    (s : Discovery) : Prop :=
  ∀ before p after, pending = before ++ p :: after →
    ∃ passed waiting, Source c entryPoints (passed ++ p :: waiting) ∧
      ∀ q ∈ passed, q.1 ∈ s.visited ∨ q.1 ∈ before.map Prod.fst

namespace InOrder

variable {id : Identity} {origin : Origin} {rest : List (Identity × Origin)} {s t : Discovery}

/-- A run starts with the entry points in order. -/
theorem initial (c : Catalog) (entryPoints : List Identity) :
    InOrder c entryPoints (entryPoints.map fun id => (id, ⟨id, .entryPoint⟩)) {} := by
  intro before p after heq
  exact ⟨before, after, heq ▸ .entries, fun q hq => .inr (List.mem_map_of_mem hq)⟩

/-- Once its first identity counts as visited, a pending list may be shortened. -/
theorem tail (h : InOrder c entryPoints ((id, origin) :: rest) s)
    (hsub : ∀ x ∈ s.visited, x ∈ t.visited) (hid : id ∈ t.visited) :
    InOrder c entryPoints rest t := by
  intro before p after heq
  obtain ⟨passed, waiting, hsource, hpassed⟩ :=
    h ((id, origin) :: before) p after (by rw [heq, List.cons_append])
  exact ⟨passed, waiting, hsource, fun q hq => Invariant.waiting_tail hsub hid (hpassed q hq)⟩

/-- What a found node refers to goes in front of a list that is in order. -/
theorem append {n : Node} (h : InOrder c entryPoints rest s) (hn : Source c entryPoints n.pending) :
    InOrder c entryPoints (n.pending ++ rest) s := by
  intro before p after heq
  rcases List.append_eq_append_iff.mp heq with ⟨between, rfl, hrest⟩ | ⟨between, hpending, hrest⟩
  · obtain ⟨passed, waiting, hsource, hpassed⟩ := h between p after hrest
    refine ⟨passed, waiting, hsource, fun q hq => (hpassed q hq).imp_right fun hw => ?_⟩
    rw [List.map_append]
    exact List.mem_append_right _ hw
  · cases between with
    | nil =>
      rw [List.append_nil] at hpending
      obtain ⟨passed, waiting, hsource, hpassed⟩ := h [] p after hrest.symm
      exact ⟨passed, waiting, hsource,
        fun q hq => .inl ((hpassed q hq).resolve_right List.not_mem_nil)⟩
    | cons p' between =>
      cases hrest
      exact ⟨before, between, hpending ▸ hn, fun q hq => .inr (List.mem_map_of_mem hq)⟩

end InOrder

/-- Nothing that was visited is missing. -/
theorem Invariant.not_lacks {pending : List (Identity × Origin)} {s : Discovery}
    (h : Invariant c entryPoints pending s) {id : Identity} (hv : id ∈ s.visited) :
    c.lacks id = false := by
  rw [Bool.eq_false_iff, Ne, Catalog.lacks_iff]
  rintro ⟨hs, hn⟩
  obtain ⟨n, hmem, rfl⟩ := List.mem_map.mp (h.recorded id hv hs)
  exact hn (Node.mem_identities_of_resolve? (h.resolved n hmem).2.2)

/-- A run that fails names the first identity of a source that is missing, at its place. -/
theorem source_of_run {pending : List (Identity × Origin)} {s : Discovery} {e : Unresolved}
    (h : Invariant c entryPoints pending s) (horder : InOrder c entryPoints pending s)
    (hr : run c pending s = .error e) :
    ∃ source, Source c entryPoints source ∧
      source.find? (c.lacks ·.1) = some (e.missing, ⟨e.declaring, e.member⟩) := by
  refine run_error_induction (motive := fun pending s => Invariant c entryPoints pending s →
    InOrder c entryPoints pending s → ∃ source, Source c entryPoints source ∧
      source.find? (c.lacks ·.1) = some (e.missing, ⟨e.declaring, e.member⟩))
    ?visited ?system ?defined ?undefined hr h horder
  case visited =>
    intro id origin rest s hv ih h horder
    exact ih (h.skip hv) (horder.tail (fun _ hx => hx) hv)
  case system =>
    intro id origin rest s _ hs ih h horder
    exact ih (h.drop hs) (horder.tail (fun _ => List.mem_cons_of_mem _) (List.mem_cons_self ..))
  case defined =>
    intro id origin rest s n hv hs hn ih h horder
    have hreach := (h.justified _ (List.mem_cons_self ..)).reachable
    refine ih (h.expand hv hs hn) ?_
    exact (horder.tail (fun _ => List.mem_cons_of_mem _) (List.mem_cons_self ..)).append
      (.node hreach hs hn)
  case undefined =>
    intro id origin rest s _ hs hn he h horder
    subst he
    obtain ⟨passed, waiting, hsource, hpassed⟩ := horder [] (id, origin) rest rfl
    have hlacks : c.lacks id = true := by
      rw [Catalog.lacks_iff, ← Node.resolve?_isSome_iff, hn]
      exact ⟨hs, Bool.false_ne_true⟩
    refine ⟨_, hsource, List.find?_eq_some_iff_append.mpr ⟨hlacks, passed, waiting, rfl, ?_⟩⟩
    intro q hq
    rw [h.not_lacks ((hpassed q hq).resolve_right List.not_mem_nil)]
    rfl

end Worklist

/-- The first pending identity with a property is the first in the first reference that names one.
-/
theorem Node.find?_pending {n : Node} {p : Identity → Bool} {id : Identity} {origin : Origin}
    (h : n.pending.find? (p ·.1) = some (id, origin)) :
    origin.declaring = n.identity ∧ ∃ r,
      n.references.find? (·.1.identities.any p) = some (r, origin.member) ∧
        r.identities.find? p = some id := by
  rw [pending, List.find?_flatMap, List.findSome?_eq_some_iff] at h
  obtain ⟨earlier, ⟨r, member⟩, later, heq, hfound, hearlier⟩ := h
  rw [List.find?_map] at hfound
  obtain ⟨x, hx, hpair⟩ := Option.map_eq_some_iff.mp hfound
  cases hpair
  refine ⟨rfl, r, List.find?_eq_some_iff_append.mpr ⟨?_, earlier, later, heq, ?_⟩, hx⟩
  · exact List.any_eq_true.mpr ⟨_, List.mem_of_find?_eq_some hx, List.find?_some hx⟩
  · intro q hq
    have hnone := hearlier q hq
    rw [List.find?_map, Option.map_eq_none_iff, List.find?_eq_none] at hnone
    simpa using hnone

/-- A failure of discovery names a missing type and the place that refers to it. The type lies
outside the library and is not defined. It is an entry point, the first that is missing, and named
as such; or the failure names a type that the entry points lead to, the first of its members whose
reference contains a missing type, and the first such type in that reference. -/
theorem discover_blames {c : Catalog} {entryPoints : List Identity} {e : Unresolved}
    (h : discover c entryPoints = .error e) :
    e.missing.isSystem = false ∧ e.missing ∉ c.identities ∧
      ((entryPoints.find? c.lacks = some e.missing ∧
          e.declaring = e.missing ∧ e.member = .entryPoint) ∨
        ∃ n r, Reachable c entryPoints e.declaring ∧ e.declaring.isSystem = false ∧
          Node.resolve? c e.declaring = some n ∧
          n.references.find? (·.1.identities.any c.lacks) = some (r, e.member) ∧
          r.identities.find? c.lacks = some e.missing) := by
  rw [discover, visitEntryPoints_eq_run] at h
  cases hr : Worklist.run c (entryPoints.map fun id => (id, ⟨id, .entryPoint⟩)) {} with
  | ok s =>
    rw [hr] at h
    cases h
  | error fault =>
    rw [hr] at h
    cases h
    obtain ⟨source, hsource, hfind⟩ :=
      Worklist.source_of_run (.initial c entryPoints) (.initial c entryPoints) hr
    have hlacks : c.lacks e.missing = true := (List.find?_eq_some_iff_append.mp hfind).1
    obtain ⟨hs, hn⟩ := Catalog.lacks_iff.mp hlacks
    refine ⟨hs, hn, ?_⟩
    cases hsource with
    | entries =>
      rw [List.find?_map] at hfind
      obtain ⟨id, hid, hpair⟩ := Option.map_eq_some_iff.mp hfind
      obtain ⟨hmissing, horigin⟩ := Prod.mk.inj hpair
      obtain ⟨hdeclaring, hmember⟩ := Origin.mk.inj horigin
      exact .inl ⟨hmissing ▸ hid, by rw [← hdeclaring, hmissing], hmember.symm⟩
    | @node a n hreach hsys hresolve =>
      obtain ⟨hdeclaring, r, href, hid⟩ := Node.find?_pending hfind
      rw [Node.identity_of_resolve? hresolve] at hdeclaring
      cases hdeclaring
      exact .inr ⟨n, r, hreach, hsys, hresolve, href, hid⟩

namespace Shop

/-- A model that names a type without definition inside the arguments of a library type. -/
def basket : Definition where
  ns := "Shop"
  name := "Basket"
  kind := .classType
  properties := [{ name := "Count", type := .simple "System.Int32" },
    { name := "Notes", type := .generic "System.Collections.Generic.Dictionary"
        [.simple "System.String", .array (.nullable (.simple "Shop.Note"))] }]

/-- The catalog of the model alone. -/
def baskets : Catalog := ⟨[basket], by decide⟩

/-- The missing type at the property that names it. -/
def missingNote : Unresolved :=
  ⟨basket.identity, .property "Notes", Identity.ofQualified "Shop.Note" 0⟩

open Discovery in
/-- Discovery blames the first member that names the type without a definition. -/
theorem discover_baskets : discover baskets [basket.identity] = .error missingNote := by
  rw [discover, visitEntryPoints_eq_run]
  refine (congrArg _ (run_defined _ List.not_mem_nil (by decide) rfl _)).trans ?_
  refine (congrArg _ (run_system _ (by decide) (by decide) _)).trans ?_
  refine (congrArg _ (run_system _ (by decide) (by decide) _)).trans ?_
  refine (congrArg _ (run_system _ (by decide) (by decide) _)).trans ?_
  exact congrArg _ (run_undefined _ (by decide) (by decide) rfl _)

/-- The note that is missing is blamed on the second property of the basket. -/
theorem discover_blames_notes :
    discover baskets [basket.identity] = .error missingNote ∧
    missingNote.missing.isSystem = false ∧ missingNote.missing ∉ baskets.identities ∧
    ∃ n r, Reachable baskets [basket.identity] missingNote.declaring ∧
      Node.resolve? baskets missingNote.declaring = some n ∧
      n.references.find? (·.1.identities.any baskets.lacks) = some (r, missingNote.member) ∧
      r.identities.find? baskets.lacks = some missingNote.missing := by
  obtain ⟨hs, hn, ⟨_, _, hmember⟩ | ⟨n, r, hreach, _, hresolve, href, hid⟩⟩ :=
    discover_blames discover_baskets
  · cases hmember
  · exact ⟨discover_baskets, hs, hn, n, r, hreach, hresolve, href, hid⟩

end Shop

end ApiTypings
