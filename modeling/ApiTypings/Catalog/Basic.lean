import ApiTypings.Definition

/-!
# Catalogs of definitions

A catalog holds definitions in the order of their insertion, no two with one identity. Inserting
an identity that is present fails; merging inserts the definitions of another catalog one after
the other and, when one is refused, keeps those that came before it.
-/

namespace ApiTypings

/-- Definitions with distinct identities, in order of insertion. -/
structure Catalog where
  definitions : List Definition
  distinct : (definitions.map Definition.identity).Nodup

namespace Catalog

/-- The catalog without definitions. -/
def empty : Catalog := ⟨[], by simp⟩

instance : Inhabited Catalog := ⟨empty⟩

/-- The identities that are defined, in order. -/
def identities (c : Catalog) : List Identity := c.definitions.map Definition.identity

/-- The number of definitions. -/
def size (c : Catalog) : Nat := c.definitions.length

/-- The definition of an identity. -/
def get? (c : Catalog) (id : Identity) : Option Definition :=
  c.definitions.find? (·.identity = id)

/-- The controllers, in order of insertion. -/
def entryPoints (c : Catalog) : List Identity :=
  (c.definitions.filter (·.controller)).map Definition.identity

/-- The catalog with a definition added at the end, unless its identity is taken. -/
def insert? (c : Catalog) (d : Definition) : Option Catalog :=
  if h : d.identity ∈ c.identities then none
  else some ⟨c.definitions ++ [d], by
    simp only [List.map_append, List.map_cons, List.map_nil]
    refine List.nodup_append.mpr ⟨c.distinct, by simp, ?_⟩
    rintro a ha b hb rfl
    exact h (by simpa [identities, List.mem_singleton.mp hb] using ha)⟩

/-- Inserts definitions one after the other: the catalog that results, and the identity of the
first definition that was refused, at which insertion stopped. -/
def insertAll (c : Catalog) : List Definition → Catalog × Option Identity
  | [] => (c, none)
  | d :: ds =>
    match c.insert? d with
    | some c' => insertAll c' ds
    | none => (c, some d.identity)

/-- Inserts the definitions of `other` in their order, up to the first that is refused. -/
def merge (c other : Catalog) : Catalog × Option Identity := c.insertAll other.definitions

/-- The catalog of a list of definitions, or the first identity that occurs again. -/
def ofDefinitions (ds : List Definition) : Except Identity Catalog :=
  match empty.insertAll ds with
  | (c, none) => .ok c
  | (_, some id) => .error id

/-- An insertion is refused exactly when the identity is taken. -/
theorem insert?_eq_none_iff {c : Catalog} {d : Definition} :
    c.insert? d = none ↔ d.identity ∈ c.identities := by
  simp [insert?]

/-- An insertion appends. -/
theorem definitions_of_insert? {c c' : Catalog} {d : Definition} (h : c.insert? d = some c') :
    c'.definitions = c.definitions ++ [d] := by
  simp only [insert?] at h
  split at h
  · simp at h
  · cases h
    rfl

/-- Only what is in the catalog is found. -/
theorem mem_identities_of_get? {c : Catalog} {id : Identity} {d : Definition}
    (h : c.get? id = some d) : id ∈ c.identities := by
  have hp := List.find?_some h
  simp only [decide_eq_true_eq] at hp
  exact List.mem_map.mpr ⟨d, List.mem_of_find?_eq_some h, hp⟩

/-- What is found has the identity that was looked for. -/
theorem identity_of_get? {c : Catalog} {id : Identity} {d : Definition}
    (h : c.get? id = some d) : d.identity = id := by
  simpa using List.find?_some h

end Catalog

end ApiTypings
