import ApiTypings.Catalog.History
import ApiTypings.Proofs.Catalog.Merging

/-!
# What a history of a catalog keeps

A catalog is the table in which each of its definitions is stored under its own identity, and every
step does to both the same. So in any history the keys of a table are the identities of what is
stored, none twice; loading that fails changes nothing, and merging only appends.
-/

namespace ApiTypings

namespace Catalog

variable {c c' : Catalog} {id : Identity} {d : Definition}

/-- The definitions of a catalog under their identities. -/
def toTable (c : Catalog) : DefinitionTable := ⟨c.definitions.map fun d => (d.identity, d)⟩

private theorem keys_toTable (c : Catalog) : c.toTable.keys = c.identities := by
  rw [DefinitionTable.keys, toTable, List.map_map]
  rfl

private theorem snd_toTable (c : Catalog) : c.toTable.entries.map Prod.snd = c.definitions := by
  rw [toTable, List.map_map]
  exact List.map_id _

private theorem get?_toTable (c : Catalog) (id : Identity) : c.toTable.get? id = c.get? id := by
  rw [DefinitionTable.get?, toTable, get?]
  induction c.definitions with
  | nil => rfl
  | cons d ds ih =>
    rw [List.map_cons, List.lookup_cons, List.find?_cons, ih]
    by_cases h : id = d.identity
    · simp [h]
    · simp [beq_eq_false_iff_ne.mpr h, Ne.symm h]

/-- Exactly the identities of a catalog are found in it. -/
theorem isSome_get?_iff : (c.get? id).isSome = true ↔ id ∈ c.identities := by
  rw [get?, List.find?_isSome]
  simp [identities]

/-- A definition that a catalog takes is stored at the end of its table. -/
theorem store_toTable (h : c.insert? d = some c') : c.toTable.store d.identity d = c'.toTable := by
  have hfresh : d.identity ∉ c.toTable.keys := by
    rw [keys_toTable, ← insert?_eq_none_iff, h]
    simp
  rw [DefinitionTable.store, if_neg hfresh, toTable, toTable, definitions_of_insert? h,
    List.map_append]
  rfl

private theorem insertAll_toTable (c : Catalog) (ds : List Definition) :
    c.toTable.insertAll ds = ((c.insertAll ds).1.toTable, (c.insertAll ds).2) := by
  induction ds generalizing c with
  | nil => rfl
  | cons d ds ih =>
    rw [DefinitionTable.insertAll, insertAll, get?_toTable]
    cases h : c.insert? d with
    | none => rw [if_pos (isSome_get?_iff.mpr (insert?_eq_none_iff.mp h))]
    | some c' =>
      have hfresh : ¬(c.get? d.identity).isSome = true := by
        rw [isSome_get?_iff, ← insert?_eq_none_iff, h]
        simp
      rw [if_neg hfresh, store_toTable h, ih]

private theorem ofDefinitions_toTable (ds : List Definition) :
    DefinitionTable.ofDefinitions ds = (ofDefinitions ds).map toTable := by
  have h := insertAll_toTable empty ds
  rw [DefinitionTable.ofDefinitions, ofDefinitions]
  change DefinitionTable.insertAll {} ds = _ at h
  rw [h]
  obtain ⟨made, refused⟩ := empty.insertAll ds
  cases refused <;> rfl

private theorem merge_toTable (c other : Catalog) :
    c.toTable.merge other.toTable = ((c.merge other).1.toTable, (c.merge other).2) := by
  rw [DefinitionTable.merge, snd_toTable, insertAll_toTable]
  rfl

/-- The catalog of a source is made from the definitions that the source has. -/
theorem Source.catalog_eq (s : Source) : s.catalog = s.read.bind fun (ds, path) =>
    (ofDefinitions ds).mapError fun id => ⟨path, .duplicate id⟩ := by
  have hdocument : ∀ text path, ofDocument text path = (read.decode text path).bind
      fun (ds, path) => (ofDefinitions ds).mapError fun id => ⟨path, .duplicate id⟩ := by
    intro text path
    rw [ofDocument, read.decode]
    cases Document.definitions text <;> rfl
  cases s with
  | definitions ds => rfl
  | document text path => exact hdocument text path
  | file disk path =>
    rw [catalog, read, load, StateT.run_bind]
    cases (Disk.fileSystem.readText path).run disk with
    | mk result after =>
      cases result with
      | error fault => rfl
      | ok text => exact hdocument text path

private theorem Source.table_eq (s : Source) : s.table = s.catalog.map toTable := by
  rw [table, catalog_eq]
  cases s.read with
  | error fault => rfl
  | ok result =>
    obtain ⟨ds, path⟩ := result
    simp only [Except.bind, ofDefinitions_toTable]
    cases ofDefinitions ds <;> rfl

/-- A step does the same to a catalog and to its table. -/
theorem step_toTable (c : Catalog) (s : Step) :
    c.toTable.step s = ((c.step s).1.toTable, (c.step s).2) := by
  cases s with
  | load source =>
    rw [DefinitionTable.step, step, source.table_eq]
    cases source.catalog <;> rfl
  | merge source path =>
    rw [DefinitionTable.step, step, source.table_eq]
    cases source.catalog with
    | error fault => rfl
    | ok other =>
      simp only [Except.map, merge_toTable, mergeFrom]
      obtain ⟨merged, refused⟩ := c.merge other
      cases refused <;> rfl

private theorem after_toTable (steps : List Step) :
    DefinitionTable.after steps = (after steps).toTable := by
  have hfold : ∀ c : Catalog, steps.foldl (fun t s => (t.step s).1) c.toTable =
      (steps.foldl (fun c s => (c.step s).1) c).toTable := by
    induction steps with
    | nil => exact fun _ => rfl
    | cons s steps ih =>
      intro c
      rw [List.foldl_cons, List.foldl_cons, step_toTable, ih]
  exact hfold empty

/-! ## What a step keeps -/

/-- Insertion appends, even when it stops early. -/
theorem prefix_insertAll (c : Catalog) (ds : List Definition) :
    c.definitions <+: (c.insertAll ds).1.definitions := by
  induction ds generalizing c with
  | nil => exact List.prefix_refl _
  | cons d ds ih =>
    rw [insertAll]
    cases h : c.insert? d with
    | none => exact List.prefix_refl _
    | some c' => exact (definitions_of_insert? h ▸ List.prefix_append ..).trans (ih c')

/-- A merge only appends, whether or not it succeeds. -/
theorem prefix_step_merge (c : Catalog) (source : Source) (path : String) :
    c.definitions <+: (c.step (.merge source path)).1.definitions := by
  rw [step]
  cases source.catalog with
  | error fault => exact List.prefix_refl _
  | ok other =>
    have hmerged : (c.mergeFrom other path).1 = (c.insertAll other.definitions).1 := by
      rw [mergeFrom, merge]
      obtain ⟨merged, refused⟩ := c.insertAll other.definitions
      cases refused <;> rfl
    change c.definitions <+: (c.mergeFrom other path).1.definitions
    rw [hmerged]
    exact prefix_insertAll c other.definitions

/-- A load that fails leaves the catalog. -/
theorem step_load_error {source : Source} {fault : CatalogFault}
    (h : (c.step (.load source)).2 = .error fault) : (c.step (.load source)).1 = c := by
  rw [step] at h ⊢
  cases hsource : source.catalog with
  | error _ => rfl
  | ok loaded =>
    rw [hsource] at h
    cases h

/-- Entry points are the identities of controllers. -/
theorem mem_entryPoints_iff :
    id ∈ c.entryPoints ↔ ∃ d, c.get? id = some d ∧ d.controller = true := by
  simp only [entryPoints, List.mem_map, List.mem_filter, get?_eq_some_iff]
  constructor
  · rintro ⟨d, ⟨hd, hcontroller⟩, hid⟩
    exact ⟨d, ⟨hd, hid⟩, hcontroller⟩
  · rintro ⟨d, ⟨hd, hid⟩, hcontroller⟩
    exact ⟨d, ⟨hd, hcontroller⟩, hid⟩

/-- The controllers are among the identities, in their order. -/
theorem entryPoints_sublist (c : Catalog) : c.entryPoints.Sublist c.identities :=
  List.filter_sublist.map _

/-- A table lists the entry points of its catalog. -/
theorem entryPoints_toTable (c : Catalog) : c.toTable.entryPoints = c.entryPoints := by
  rw [DefinitionTable.entryPoints, toTable, entryPoints, List.filter_map, List.map_map]
  rfl

end Catalog

namespace DefinitionTable

/-- Every definition is stored under its identity and no key is used twice; the entry points are
the keys of the controllers, each once and in the order of the keys. -/
structure IsKeyed (t : DefinitionTable) : Prop where
  key_eq : ∀ e ∈ t.entries, e.1 = e.2.identity
  nodup_keys : t.keys.Nodup
  mem_entryPoints : ∀ id, id ∈ t.entryPoints ↔ ∃ d, (id, d) ∈ t.entries ∧ d.controller = true
  nodup_entryPoints : t.entryPoints.Nodup
  sublist_entryPoints : t.entryPoints.Sublist t.keys

/-- A catalog holds the definitions of a table in their order and looks them up as it does. -/
structure Represents (t : DefinitionTable) (c : Catalog) : Prop where
  definitions : c.definitions = t.entries.map Prod.snd
  identities : c.identities = t.keys
  get? : ∀ id, c.get? id = t.get? id
  entryPoints : c.entryPoints = t.entryPoints

end DefinitionTable

namespace Catalog

/-- The table of a catalog is keyed by identity. -/
theorem isKeyed_toTable (c : Catalog) : c.toTable.IsKeyed where
  key_eq := by
    rw [toTable]
    rintro e he
    obtain ⟨d, -, rfl⟩ := List.mem_map.mp he
    rfl
  nodup_keys := c.keys_toTable ▸ c.distinct
  mem_entryPoints id := by
    rw [entryPoints_toTable, mem_entryPoints_iff]
    simp only [get?_eq_some_iff, toTable, List.mem_map, Prod.mk.injEq]
    constructor
    · rintro ⟨d, ⟨hd, hid⟩, hcontroller⟩
      exact ⟨d, ⟨d, hd, hid, rfl⟩, hcontroller⟩
    · rintro ⟨d, ⟨_, hd, hid, rfl⟩, hcontroller⟩
      exact ⟨_, ⟨hd, hid⟩, hcontroller⟩
  nodup_entryPoints := by
    rw [entryPoints_toTable]
    exact c.entryPoints_sublist.nodup c.distinct
  sublist_entryPoints := by
    rw [entryPoints_toTable, keys_toTable]
    exact c.entryPoints_sublist

/-- The table of a catalog represents it. -/
theorem represents_toTable (c : Catalog) : c.toTable.Represents c where
  definitions := c.snd_toTable.symm
  identities := c.keys_toTable.symm
  get? id := (c.get?_toTable id).symm
  entryPoints := c.entryPoints_toTable.symm

/-- In any history a table is keyed by the identities of its definitions, loading that fails
leaves it as it is and merging, failed or not, keeps its entries in front; a catalog with the same
history holds what the table holds and every further step ends the same way for both. -/
theorem history_keeps (steps : List Step) :
    (DefinitionTable.after steps).IsKeyed ∧
    (∀ source fault, ((DefinitionTable.after steps).step (.load source)).2 = .error fault →
      ((DefinitionTable.after steps).step (.load source)).1 = DefinitionTable.after steps) ∧
    (∀ source path, (DefinitionTable.after steps).entries <+:
      ((DefinitionTable.after steps).step (.merge source path)).1.entries) ∧
    (DefinitionTable.after steps).Represents (after steps) ∧
    ∀ s, ((DefinitionTable.after steps).step s).2 = ((after steps).step s).2 := by
  rw [after_toTable]
  refine ⟨isKeyed_toTable _, fun source fault h => ?_, fun source path => ?_,
    represents_toTable _, fun s => ?_⟩
  · rw [step_toTable] at h ⊢
    exact congrArg toTable (step_load_error h)
  · rw [step_toTable]
    exact (prefix_step_merge _ source path).map _
  · rw [step_toTable]

end Catalog

end ApiTypings
