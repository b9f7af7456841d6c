import ApiTypings.Catalog.Loading
import ApiTypings.Proofs.Catalog.Merging
import ApiTypings.Proofs.Success

/-!
# Loading concatenates

On a file system that stays as it is, loading succeeds when every file that is there has a catalog
and no identity is defined twice among them, and it gives their definitions in the order of the
paths.
-/

namespace ApiTypings.Catalog

/-- The catalogs of the files that are there, in the order of the paths. -/
def inputs (fs : FileSystem Id) (paths : List String) : Except CatalogFault (List Catalog) :=
  (paths.filter fun path => (fs.isPresent path).run).mapM fun path => (load fs path).run

variable {fs : FileSystem Id}

private theorem inputs_cons_absent {path : String} (h : (fs.isPresent path).run = false)
    (paths : List String) : inputs fs (path :: paths) = inputs fs paths := by
  rw [inputs, List.filter_cons, h]
  rfl

private theorem inputs_cons_present {path : String} (h : (fs.isPresent path).run = true)
    (paths : List String) : inputs fs (path :: paths) =
      ((load fs path).run).bind fun other => (inputs fs paths).map (other :: ·) := by
  rw [inputs, List.filter_cons, h, if_pos rfl, List.mapM_cons]
  cases (load fs path).run with
  | error fault => rfl
  | ok other =>
    rw [inputs]
    cases (paths.filter fun path => (fs.isPresent path).run).mapM
      fun path => (load fs path).run <;> rfl

/-- A catalog is merged from a file exactly when the merged one is both, one behind the other. -/
theorem mergeFrom_eq_ok_iff {c other merged : Catalog} {path : String} :
    c.mergeFrom other path = (merged, .ok ()) ↔
      merged.definitions = c.definitions ++ other.definitions := by
  rw [← merge_eq_none_iff, mergeFrom]
  obtain ⟨made, refused⟩ := c.merge other
  cases refused with
  | none => simp
  | some id => simp

private theorem loadOnto_cons_absent {path : String} (h : (fs.isPresent path).run = false)
    (c : Catalog) (paths : List String) : loadOnto fs c (path :: paths) = loadOnto fs c paths := by
  rw [loadOnto]
  change (if (fs.isPresent path).run = true then _ else _) = _
  rw [h]
  rfl

private theorem loadOnto_cons_present {path : String} (h : (fs.isPresent path).run = true)
    (c : Catalog) (paths : List String) : (loadOnto fs c (path :: paths)).run =
      ((load fs path).run).bind fun other => (c.mergeFrom other path).2.bind fun _ =>
        (loadOnto fs (c.mergeFrom other path).1 paths).run := by
  rw [loadOnto]
  change (if (fs.isPresent path).run = true then _ else _) = _
  rw [if_pos h]
  cases hload : (load fs path).run with
  | error fault =>
    replace hload : load fs path = .error fault := hload
    rw [hload]
    rfl
  | ok other =>
    replace hload : load fs path = pure (.ok other) := hload
    rw [hload, pure_bind]
    obtain ⟨⟨merged, refused⟩, hmerged⟩ : ∃ result, c.mergeFrom other path = result := ⟨_, rfl⟩
    cases refused <;> simp only [Except.bind, hmerged] <;> rfl

/-- Loading onto a catalog appends the definitions of the files that are there, and it succeeds
exactly when they can be appended. -/
theorem loadOnto_eq_ok_iff {c loaded : Catalog} {paths : List String} :
    (loadOnto fs c paths).run = .ok loaded ↔ ∃ cs, inputs fs paths = .ok cs ∧
      loaded.definitions = c.definitions ++ cs.flatMap definitions := by
  induction paths generalizing c with
  | nil =>
    constructor
    · rintro ⟨⟩
      exact ⟨[], rfl, (List.append_nil _).symm⟩
    · rintro ⟨_, ⟨⟩, h⟩
      rw [eq_of_definitions (h.trans (List.append_nil _))]
      rfl
  | cons path paths ih =>
    cases hpresent : (fs.isPresent path).run with
    | false => rw [loadOnto_cons_absent hpresent, inputs_cons_absent hpresent, ih]
    | true =>
      rw [loadOnto_cons_present hpresent, inputs_cons_present hpresent]
      constructor
      · intro h
        obtain ⟨other, hother, h⟩ := exists_of_bind_ok h
        obtain ⟨_, hmerged, h⟩ := exists_of_bind_ok h
        obtain ⟨cs, hcs, hloaded⟩ := ih.mp h
        have happend := mergeFrom_eq_ok_iff.mp (Prod.ext rfl hmerged)
        refine ⟨other :: cs, ?_, ?_⟩
        · rw [hother, hcs]
          rfl
        · rw [hloaded, happend, List.flatMap_cons, List.append_assoc]
      · rintro ⟨_, h, hloaded⟩
        obtain ⟨other, hother, h⟩ := exists_of_bind_ok h
        obtain ⟨cs, hcs, rfl⟩ := exists_of_map_ok h
        rw [List.flatMap_cons, ← List.append_assoc] at hloaded
        obtain ⟨merged, happend⟩ :=
          exists_of_sublist (hloaded ▸ List.sublist_append_left (c.definitions ++ _) _)
        have hrest : (loadOnto fs merged paths).run = .ok loaded :=
          ih.mpr ⟨cs, hcs, by rw [hloaded, happend]⟩
        rw [hother, Except.bind, mergeFrom_eq_ok_iff.mpr happend]
        exact hrest

end ApiTypings.Catalog
