import Mathlib.Data.List.Nodup

/-!
# Lists with distinct keys

A catalog, a graph and a sink are lists in which no key occurs twice, and each is searched by key.
What such a search finds does not depend on the order of the list.
-/

namespace ApiTypings

variable {α κ : Type} [DecidableEq κ] {key : α → κ} {xs ys : List α}

/-- The element of a key is the one in the list that has it. -/
theorem find?_key_eq_some_iff (h : (xs.map key).Nodup) {k : κ} {a : α} :
    xs.find? (key · = k) = some a ↔ a ∈ xs ∧ key a = k := by
  constructor
  · intro ha
    exact ⟨List.mem_of_find?_eq_some ha, by simpa using List.find?_some ha⟩
  · rintro ⟨ha, rfl⟩
    cases hfind : xs.find? (key · = key a) with
    | none =>
      have hnone := List.find?_eq_none.mp hfind a ha
      simp at hnone
    | some found =>
      have hkey : key found = key a := by simpa using List.find?_some hfind
      have hmem := List.mem_of_find?_eq_some hfind
      exact congrArg some (List.inj_on_of_nodup_map h hmem ha hkey)

/-- A search by key finds the same in any order. -/
theorem find?_key_perm (h : (xs.map key).Nodup) (hp : xs.Perm ys) (k : κ) :
    xs.find? (key · = k) = ys.find? (key · = k) := by
  have hys : (ys.map key).Nodup := (hp.map key).nodup_iff.mp h
  ext a
  rw [find?_key_eq_some_iff h, find?_key_eq_some_iff hys, hp.mem_iff]

end ApiTypings
