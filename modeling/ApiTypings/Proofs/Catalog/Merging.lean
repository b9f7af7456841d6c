import ApiTypings.Catalog.Basic
import ApiTypings.Proofs.Keyed

/-!
# Insertion appends

Definitions that are inserted without a refusal are appended, and this happens exactly when no
identity occurs twice. So a catalog is the list of its definitions: catalogs that are merged, or
made of a list, are known from their definitions alone.
-/

namespace ApiTypings.Catalog

/-- Catalogs with the same definitions are the same. -/
theorem eq_of_definitions {c c' : Catalog} (h : c.definitions = c'.definitions) : c = c' := by
  cases c
  cases c'
  cases h
  rfl

/-- Some of the definitions of a catalog, in their order, are a catalog. -/
theorem exists_of_sublist {c : Catalog} {ds : List Definition} (h : ds.Sublist c.definitions) :
    ∃ made : Catalog, made.definitions = ds :=
  ⟨⟨ds, (h.map Definition.identity).nodup c.distinct⟩, rfl⟩

/-- Definitions are inserted without a refusal exactly when they can be appended. -/
theorem insertAll_eq_none_iff {c c' : Catalog} {ds : List Definition} :
    c.insertAll ds = (c', none) ↔ c'.definitions = c.definitions ++ ds := by
  induction ds generalizing c with
  | nil =>
    rw [insertAll, List.append_nil, Prod.mk.injEq]
    constructor
    · rintro ⟨rfl, _⟩
      rfl
    · intro h
      exact ⟨eq_of_definitions h.symm, rfl⟩
  | cons d ds ih =>
    rw [insertAll]
    cases hd : c.insert? d with
    | none =>
      have htaken := insert?_eq_none_iff.mp hd
      refine ⟨nofun, fun h => ?_⟩
      have hdistinct := c'.distinct
      rw [h, List.map_append, List.nodup_append] at hdistinct
      exact absurd rfl (hdistinct.2.2 _ htaken d.identity (List.mem_cons_self ..))
    | some next =>
      rw [ih, definitions_of_insert? hd, List.append_assoc]
      rfl

/-- A merge succeeds exactly when the merged catalog is both, one behind the other. -/
theorem merge_eq_none_iff {a b merged : Catalog} :
    a.merge b = (merged, none) ↔ merged.definitions = a.definitions ++ b.definitions :=
  insertAll_eq_none_iff

/-- Catalogs without a common identity are merged. -/
theorem exists_merge {a b : Catalog} (h : ∀ id ∈ a.identities, id ∉ b.identities) :
    ∃ merged, a.merge b = (merged, none) := by
  have hdistinct : ((a.definitions ++ b.definitions).map Definition.identity).Nodup := by
    rw [List.map_append, List.nodup_append]
    refine ⟨a.distinct, b.distinct, ?_⟩
    rintro x hx y hy rfl
    exact h x hx hy
  exact ⟨⟨_, hdistinct⟩, merge_eq_none_iff.mpr rfl⟩

/-- A catalog of definitions holds them in their order. -/
theorem ofDefinitions_eq_ok_iff {c : Catalog} {ds : List Definition} :
    ofDefinitions ds = .ok c ↔ c.definitions = ds := by
  have hinsert : empty.insertAll ds = (c, none) ↔ c.definitions = ds := insertAll_eq_none_iff
  rw [ofDefinitions, ← hinsert]
  obtain ⟨made, refused⟩ := empty.insertAll ds
  cases refused with
  | none => simp
  | some id => simp

/-- Found is the definition that has the identity. -/
theorem get?_eq_some_iff {c : Catalog} {id : Identity} {d : Definition} :
    c.get? id = some d ↔ d ∈ c.definitions ∧ d.identity = id :=
  find?_key_eq_some_iff c.distinct

/-- A catalog that holds the definitions of another finds them. -/
theorem get?_of_subset {c c' : Catalog} (h : c.definitions ⊆ c'.definitions) {id : Identity}
    {d : Definition} (hd : c.get? id = some d) : c'.get? id = some d := by
  rw [get?_eq_some_iff] at hd ⊢
  exact ⟨h hd.1, hd.2⟩

end ApiTypings.Catalog
