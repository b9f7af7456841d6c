import ApiTypings.Proofs.Catalog.Decoding
import ApiTypings.Proofs.Catalog.Loading
import ApiTypings.Proofs.Disk.Operations

/-!
# Catalogs are concatenated

Insertion stops at the first definition whose identity is taken, after everything before it has been
appended. So a catalog of two lists is that of the first with that of the second merged into it, and
merging fails at the first definition whose identity the two catalogs share. What is loaded from a
disk is the catalog of all definitions in the files that are there.
-/

namespace ApiTypings

namespace Catalog

variable {a b c c' merged : Catalog} {ds : List Definition}

/-- A list of definitions makes a catalog when no identity is defined twice. -/
theorem exists_ofDefinitions_iff :
    (∃ c, ofDefinitions ds = .ok c) ↔ (ds.map Definition.identity).Nodup := by
  constructor
  · rintro ⟨c, h⟩
    exact ofDefinitions_eq_ok_iff.mp h ▸ c.distinct
  · intro h
    exact ⟨⟨ds, h⟩, ofDefinitions_eq_ok_iff.mpr rfl⟩

/-! ## Refused definitions -/

/-- What is inserted after a list that is not refused is inserted into the catalog with it. -/
theorem insertAll_append (h : c.insertAll ds = (c', none)) (rest : List Definition) :
    c.insertAll (ds ++ rest) = c'.insertAll rest := by
  induction ds generalizing c with
  | nil =>
    rw [insertAll, Prod.mk.injEq] at h
    rw [h.1, List.nil_append]
  | cons d ds ih =>
    rw [insertAll] at h
    rw [List.cons_append, insertAll]
    cases hd : c.insert? d with
    | none =>
      rw [hd] at h
      cases h
    | some next =>
      rw [hd] at h
      exact ih h

/-- Insertion stops at the first definition whose identity is taken; everything before it has been
appended by then. -/
theorem insertAll_eq_some_iff {id : Identity} :
    c.insertAll ds = (c', some id) ↔ ∃ before d after, ds = before ++ d :: after ∧
      c'.definitions = c.definitions ++ before ∧ d.identity ∈ c'.identities ∧ d.identity = id := by
  constructor
  · intro h
    -- The definitions before the one that is refused have been kept.
    induction ds generalizing c with
    | nil => cases h
    | cons d ds ih =>
      rw [insertAll] at h
      cases hd : c.insert? d with
      | none =>
        rw [hd] at h
        cases h
        exact ⟨[], d, ds, rfl, (List.append_nil _).symm, insert?_eq_none_iff.mp hd, rfl⟩
      | some next =>
        rw [hd] at h
        obtain ⟨before, d', after, rfl, hkept, htaken⟩ := ih h
        rw [definitions_of_insert? hd, List.append_assoc] at hkept
        exact ⟨d :: before, d', after, rfl, hkept, htaken⟩
  · rintro ⟨before, d, after, rfl, hkept, htaken, rfl⟩
    rw [insertAll_append (insertAll_eq_none_iff.mpr hkept), insertAll,
      insert?_eq_none_iff.mpr htaken]

/-- Merging fails at the first definition of the other catalog whose identity is taken in the
receiving one, and keeps what came before it. -/
theorem mergeFrom_eq_error_iff {path : String} {fault : CatalogFault} :
    a.mergeFrom b path = (merged, .error fault) ↔
      ∃ before d after, b.definitions = before ++ d :: after ∧
        (∀ x ∈ before, x.identity ∉ a.identities) ∧ d.identity ∈ a.identities ∧
        merged.definitions = a.definitions ++ before ∧ fault = ⟨path, .duplicate d.identity⟩ := by
  have hmerge : a.mergeFrom b path = (merged, .error fault) ↔
      ∃ id, a.insertAll b.definitions = (merged, some id) ∧ fault = ⟨path, .duplicate id⟩ := by
    rw [mergeFrom, merge]
    obtain ⟨made, refused⟩ := a.insertAll b.definitions
    cases refused with
    | none => simp
    | some id => simp [eq_comm]
  rw [hmerge]
  constructor
  · rintro ⟨id, hinsert, rfl⟩
    obtain ⟨before, d, after, hsplit, hkept, htaken, rfl⟩ := insertAll_eq_some_iff.mp hinsert
    refine ⟨before, d, after, hsplit, ?_, ?_, hkept, rfl⟩
    · intro x hx hmem
      have hdistinct := merged.distinct
      rw [hkept, List.map_append, List.nodup_append] at hdistinct
      exact hdistinct.2.2 _ hmem _ (List.mem_map_of_mem hx) rfl
    · -- The other catalog has the identity once, so it is not among those that were appended.
      rw [identities, hkept, List.map_append, List.mem_append] at htaken
      refine htaken.resolve_right fun hmem => ?_
      have hdistinct := b.distinct
      rw [hsplit, List.map_append, List.nodup_append] at hdistinct
      exact hdistinct.2.2 _ hmem _ (List.mem_cons_self ..) rfl
  · rintro ⟨before, d, after, hsplit, -, hshared, hkept, rfl⟩
    refine ⟨d.identity, insertAll_eq_some_iff.mpr ⟨before, d, after, hsplit, hkept, ?_, rfl⟩, rfl⟩
    rw [identities, hkept, List.map_append]
    exact List.mem_append_left _ hshared

/-- Merging fails when the two catalogs share an identity. -/
theorem exists_mergeFrom_error_iff {path : String} :
    (∃ merged fault, a.mergeFrom b path = (merged, .error fault)) ↔
      ∃ id ∈ a.identities, id ∈ b.identities := by
  constructor
  · rintro ⟨merged, fault, h⟩
    obtain ⟨before, d, after, hsplit, -, hshared, -⟩ := mergeFrom_eq_error_iff.mp h
    refine ⟨d.identity, hshared, List.mem_map_of_mem ?_⟩
    rw [hsplit]
    exact List.mem_append_right _ (List.mem_cons_self ..)
  · rintro ⟨id, ha, hb⟩
    obtain ⟨⟨merged, result⟩, h⟩ : ∃ outcome, a.mergeFrom b path = outcome := ⟨_, rfl⟩
    cases result with
    | error fault => exact ⟨merged, fault, h⟩
    | ok =>
      have hdistinct := merged.distinct
      rw [mergeFrom_eq_ok_iff.mp h, List.map_append, List.nodup_append] at hdistinct
      exact absurd rfl (hdistinct.2.2 id ha id hb)

/-- The catalog of two lists is the catalog of the first with that of the second merged into it. -/
theorem ofDefinitions_append_iff {xs ys : List Definition} {path : String} :
    ofDefinitions (xs ++ ys) = .ok merged ↔ ∃ a b, ofDefinitions xs = .ok a ∧
      ofDefinitions ys = .ok b ∧ a.mergeFrom b path = (merged, .ok ()) := by
  simp only [ofDefinitions_eq_ok_iff, mergeFrom_eq_ok_iff]
  constructor
  · intro h
    obtain ⟨a, rfl⟩ := exists_of_sublist (h ▸ List.sublist_append_left xs ys)
    obtain ⟨b, rfl⟩ := exists_of_sublist (h ▸ List.sublist_append_right a.definitions ys)
    exact ⟨a, b, rfl, rfl, h⟩
  · rintro ⟨a, b, rfl, rfl, h⟩
    exact h

end Catalog

/-! ## Loading from a disk -/

namespace Disk

variable {α β : Type}

/-- A file with a document of these definitions. -/
def Holds (d : Disk) (path : String) (ds : List Definition) : Prop :=
  ∃ text, ((fileSystem.readText path).run d).1 = .ok text ∧ Document.definitions text = .ok ds

/-- A file with a text that describes definitions holds these. -/
theorem holds_of_describes {d : Disk} {path text : String} {v : Json.Value} {ds : List Definition}
    (hfile : d.readFile path = .ok text.toUTF8) (hread : Json.read text = some v)
    (hds : Document.documentForm ds v) : d.Holds path ds := by
  refine ⟨text, ?_, ?_⟩
  · have hrun : (fileSystem.readFile path).run d = (.ok text.toUTF8, d) := by
      rw [← hfile]
      rfl
    have htext : String.fromUTF8? text.toUTF8 = some text := dif_pos text.isValidUTF8
    rw [FileSystem.readText, run_bind_of_run hrun]
    dsimp only
    rw [htext]
    rfl
  · rw [Document.definitions, hread]
    simp only [Document.decodes_document ds v hds, Except.mapError]

/-- What every operation gives on a disk that never changes. -/
def snapshot (d : Disk) : FileSystem Id where
  readFile path := ((fileSystem.readFile path).run d).1
  isPresent path := ((fileSystem.isPresent path).run d).1
  isFile path := ((fileSystem.isFile path).run d).1
  isDirectory path := ((fileSystem.isDirectory path).run d).1
  makeDirectory path := ((fileSystem.makeDirectory path).run d).1
  makeTemporary directory stem := ((fileSystem.makeTemporary directory stem).run d).1
  writeFile path content := ((fileSystem.writeFile path content).run d).1
  rename source target := ((fileSystem.rename source target).run d).1
  removeTree path := ((fileSystem.removeTree path).run d).1

/-- A computation gives on a disk what another gives without a state, and leaves the disk as it
is. -/
def Gives (d : Disk) (x : StateM Disk α) (y : Id α) : Prop := x.run d = (y.run, d)

namespace Gives

variable {d : Disk} {x : StateM Disk α} {y : Id α}

/-- What reads nothing gives the same everywhere. -/
theorem pure (d : Disk) (result : α) : d.Gives (pure result) (pure result) := rfl

/-- What a disk gives step by step it gives as a whole. -/
theorem bind {f : α → StateM Disk β} {g : α → Id β} (hx : d.Gives x y)
    (hf : ∀ result, d.Gives (f result) (g result)) : d.Gives (x >>= f) (y >>= g) :=
  (run_bind_of_run hx).trans (hf y.run)

end Gives

private theorem gives_readText (d : Disk) (path : String) :
    d.Gives (fileSystem.readText path) ((snapshot d).readText path) := by
  have hread : d.Gives (fileSystem.readFile path) ((snapshot d).readFile path) := rfl
  refine hread.bind fun bytes => ?_
  cases bytes with
  | error fault => exact .pure d _
  | ok bytes =>
    dsimp only
    cases String.fromUTF8? bytes <;> exact .pure d _

end Disk

namespace Catalog

open Disk

/-- A file is loaded from a disk as from a snapshot of it. -/
theorem gives_load (d : Disk) (path : String) :
    d.Gives (load fileSystem path) (load (snapshot d) path) := by
  refine (gives_readText d path).bind fun text => ?_
  cases text <;> exact .pure d _

/-- Files are loaded from a disk one after the other as from a snapshot of it. -/
theorem gives_loadOnto (d : Disk) (c : Catalog) (paths : List String) :
    d.Gives (loadOnto fileSystem c paths) (loadOnto (snapshot d) c paths) := by
  induction paths generalizing c with
  | nil => exact .pure d _
  | cons path paths ih =>
    have hpresent : d.Gives (fileSystem.isPresent path) ((snapshot d).isPresent path) := rfl
    refine hpresent.bind fun present => ?_
    cases present with
    | false => exact ih c
    | true =>
      refine (gives_load d path).bind fun other => ?_
      cases other with
      | error fault => exact .pure d _
      | ok other =>
        dsimp only
        split
        · exact .pure d _
        · exact ih _

/-- A text is read as the catalog of the definitions that its document holds. -/
theorem ofDocument_eq_ok_iff {text path : String} {made : Catalog} :
    ofDocument text path = .ok made ↔ Document.definitions text = .ok made.definitions := by
  rw [ofDocument]
  cases Document.definitions text with
  | error fault => simp
  | ok ds =>
    dsimp only
    rw [mapError_eq_ok_iff, ofDefinitions_eq_ok_iff, Except.ok.injEq, eq_comm]

/-- A catalog is loaded from a file when the file holds its definitions. -/
theorem load_eq_ok_iff {d : Disk} {path : String} {loaded : Catalog} :
    (load (snapshot d) path).run = .ok loaded ↔ d.Holds path loaded.definitions := by
  have hread : ((fileSystem.readText path).run d).1 = ((snapshot d).readText path).run :=
    congrArg Prod.fst (gives_readText d path)
  rw [Holds, hread, load]
  cases htext : ((snapshot d).readText path).run with
  | error fault =>
    replace htext : (snapshot d).readText path = pure (.error fault) := htext
    rw [htext, pure_bind]
    simp
  | ok text =>
    replace htext : (snapshot d).readText path = pure (.ok text) := htext
    rw [htext, pure_bind]
    change ofDocument text path = .ok loaded ↔ _
    rw [ofDocument_eq_ok_iff]
    simp

/-- Lists of definitions that together make a catalog make catalogs. -/
theorem exists_catalogs {c : Catalog} {dss : List (List Definition)}
    (h : ∀ ds ∈ dss, ds.Sublist c.definitions) :
    ∃ cs : List Catalog, cs.map definitions = dss := by
  induction dss with
  | nil => exact ⟨[], rfl⟩
  | cons ds dss ih =>
    rw [List.forall_mem_cons] at h
    obtain ⟨made, rfl⟩ := exists_of_sublist h.1
    obtain ⟨cs, rfl⟩ := ih h.2
    exact ⟨made :: cs, rfl⟩

/-- What is loaded are the definitions of the files that are there, in the order of the paths. -/
theorem loadAll_eq_ok_iff {d : Disk} {paths : List String} {loaded : Catalog} :
    (loadAll (snapshot d) paths).run = .ok loaded ↔
      ∃ dss, List.Forall₂ d.Holds (paths.filter d.isPresent) dss ∧
        loaded.definitions = dss.flatten := by
  have hinputs : ∀ cs, inputs (snapshot d) paths = .ok cs ↔
      List.Forall₂ d.Holds (paths.filter d.isPresent) (cs.map definitions) := by
    intro cs
    rw [List.forall₂_map_right_iff]
    simp only [← load_eq_ok_iff]
    exact mapM_eq_ok_iff
  rw [loadAll, loadOnto_eq_ok_iff]
  simp only [hinputs]
  constructor
  · rintro ⟨cs, hholds, hloaded⟩
    exact ⟨_, hholds, hloaded.trans List.flatMap_def⟩
  · rintro ⟨dss, hholds, hloaded⟩
    obtain ⟨cs, rfl⟩ : ∃ cs : List Catalog, cs.map definitions = dss :=
      exists_catalogs fun ds hds => hloaded ▸ List.sublist_flatten_of_mem hds
    exact ⟨cs, hholds, hloaded.trans List.flatMap_def.symm⟩

/-- Merging concatenates. The catalog of two lists of definitions is that of the first with that of
the second merged into it, and there is one exactly when there is the other. Merging fails exactly
when the catalogs share an identity; the fault names the first definition of the other catalog whose
identity is taken, and the receiving catalog has kept what came before. Loading from a disk only
reads; it succeeds exactly when every file that is there holds definitions and no identity is
defined twice among them, and it gives the catalog of all of them in the order of the paths. -/
theorem merging_concatenates :
    (∀ xs ys path merged, ofDefinitions (xs ++ ys) = .ok merged ↔
      ∃ a b, ofDefinitions xs = .ok a ∧ ofDefinitions ys = .ok b ∧
        a.mergeFrom b path = (merged, .ok ())) ∧
    (∀ (a b : Catalog) path, (∃ merged fault, a.mergeFrom b path = (merged, .error fault)) ↔
      ∃ id ∈ a.identities, id ∈ b.identities) ∧
    (∀ (a b merged : Catalog) path fault, a.mergeFrom b path = (merged, .error fault) ↔
      ∃ before d after, b.definitions = before ++ d :: after ∧
        (∀ x ∈ before, x.identity ∉ a.identities) ∧ d.identity ∈ a.identities ∧
        merged.definitions = a.definitions ++ before ∧ fault = ⟨path, .duplicate d.identity⟩) ∧
    ∀ (d : Disk) paths,
      ((loadAll fileSystem paths).run d).2 = d ∧
      ((∃ loaded, ((loadAll fileSystem paths).run d).1 = .ok loaded) ↔
        ∃ dss, List.Forall₂ d.Holds (paths.filter d.isPresent) dss ∧
          (dss.flatten.map Definition.identity).Nodup) ∧
      ∀ loaded, ((loadAll fileSystem paths).run d).1 = .ok loaded ↔
        ∃ dss, List.Forall₂ d.Holds (paths.filter d.isPresent) dss ∧
          ofDefinitions dss.flatten = .ok loaded := by
  refine ⟨fun xs ys path merged => ofDefinitions_append_iff,
    fun a b path => exists_mergeFrom_error_iff,
    fun a b merged path fault => mergeFrom_eq_error_iff, fun d paths => ?_⟩
  have hrun : (loadAll fileSystem paths).run d = ((loadAll (snapshot d) paths).run, d) :=
    gives_loadOnto d empty paths
  have hloaded : ∀ loaded, ((loadAll fileSystem paths).run d).1 = .ok loaded ↔
      ∃ dss, List.Forall₂ d.Holds (paths.filter d.isPresent) dss ∧
        ofDefinitions dss.flatten = .ok loaded := by
    intro loaded
    rw [hrun, loadAll_eq_ok_iff]
    simp only [ofDefinitions_eq_ok_iff]
  refine ⟨by rw [hrun], ?_, hloaded⟩
  simp only [hloaded, ← exists_ofDefinitions_iff]
  constructor
  · rintro ⟨loaded, dss, hholds, h⟩
    exact ⟨dss, hholds, loaded, h⟩
  · rintro ⟨dss, hholds, loaded, h⟩
    exact ⟨loaded, dss, hholds, h⟩

end Catalog

end ApiTypings
