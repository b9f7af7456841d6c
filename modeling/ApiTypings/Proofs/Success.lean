import Mathlib.Data.List.Forall2

/-!
# Computations that succeed

When the steps that writers are composed of succeed: a computation and what is made of its
result, two computations in a row, and one computation for each element of a list.
-/

namespace ApiTypings

variable {ε ε' α β γ : Type}

/-- A result that is no error is a value. -/
theorem exists_ok_of_isOk {x : Except ε α} (h : x.isOk = true) : ∃ a, x = .ok a := by
  cases x with
  | error e => cases h
  | ok a => exact ⟨a, rfl⟩

/-- A result from which a value is made has one. -/
theorem exists_ok_of_toOption {x : Except ε α} {f : α → β} {b : β}
    (h : x.toOption.map f = some b) : ∃ a, x = .ok a ∧ f a = b := by
  cases x with
  | error e => cases h
  | ok a => exact ⟨a, rfl, Option.some.inj h⟩

/-- A mapped result is a value when the result is. -/
theorem exists_ok_map {x : Except ε α} {f : α → β} :
    (∃ b, x.map f = .ok b) ↔ ∃ a, x = .ok a := by
  cases x with
  | error e => exact ⟨nofun, nofun⟩
  | ok a => exact ⟨fun _ => ⟨a, rfl⟩, fun _ => ⟨f a, rfl⟩⟩

/-- A mapped result has the error of the result. -/
theorem map_eq_error_iff {x : Except ε α} {f : α → β} {e : ε} :
    x.map f = .error e ↔ x = .error e := by
  cases x with
  | error e' =>
    constructor
    · rintro ⟨⟩
      rfl
    · rintro ⟨⟩
      rfl
  | ok a => exact ⟨nofun, nofun⟩

/-- Changing errors keeps values. -/
theorem mapError_eq_ok_iff {x : Except ε α} {f : ε → ε'} {a : α} :
    x.mapError f = .ok a ↔ x = .ok a := by
  cases x with
  | error e => exact ⟨nofun, nofun⟩
  | ok b =>
    constructor
    · rintro ⟨⟩
      rfl
    · rintro ⟨⟩
      rfl

/-- A sequence succeeds when its first part does, and then its second. -/
theorem exists_ok_bind {x : Except ε α} {f : α → Except ε β} :
    (∃ b, (x >>= f) = .ok b) ↔ ∃ a, x = .ok a ∧ ∃ b, f a = .ok b := by
  cases x with
  | error e =>
    refine ⟨nofun, ?_⟩
    rintro ⟨a, ha, _⟩
    cases ha
  | ok a =>
    refine ⟨fun h => ⟨a, rfl, h⟩, ?_⟩
    rintro ⟨_, ⟨⟩, h⟩
    exact h

/-- The value of a mapped result comes from one of the result. -/
theorem exists_of_map_ok {x : Except ε α} {f : α → β} {b : β} (h : x.map f = .ok b) :
    ∃ a, x = .ok a ∧ f a = b := by
  cases x with
  | error e => cases h
  | ok a =>
    cases h
    exact ⟨a, rfl, rfl⟩

/-- The value of a sequence comes from a value of its first part. -/
theorem exists_of_bind_ok {x : Except ε α} {f : α → Except ε β} {b : β} (h : (x >>= f) = .ok b) :
    ∃ a, x = .ok a ∧ f a = .ok b := by
  cases x with
  | error e => cases h
  | ok a => exact ⟨a, rfl, h⟩

/-- A computation for an element that may be missing. -/
theorem exists_ok_optionMapM {f : α → Except ε β} {x : Option α} :
    (∃ y, x.mapM f = .ok y) ↔ ∀ a ∈ x, ∃ b, f a = .ok b := by
  cases x with
  | none => exact ⟨fun _ => nofun, fun _ => ⟨none, rfl⟩⟩
  | some a =>
    rw [Option.mapM_some]
    cases hf : f a with
    | error e =>
      refine ⟨nofun, fun h => ?_⟩
      obtain ⟨b, hb⟩ := h a rfl
      rw [hf] at hb
      cases hb
    | ok b =>
      refine ⟨?_, fun _ => ⟨some b, rfl⟩⟩
      rintro _ a' ⟨⟩
      exact ⟨b, hf⟩

/-- What an optional value is mapped to comes from that value. -/
theorem exists_of_mem_optionMapM {f : α → Except ε β} {x : Option α} {y : Option β}
    (h : x.mapM f = .ok y) {b : β} (hb : b ∈ y) : ∃ a ∈ x, f a = .ok b := by
  cases x with
  | none =>
    cases h
    cases hb
  | some a =>
    rw [Option.mapM_some] at h
    obtain ⟨b', hb', rfl⟩ := exists_of_map_ok h
    cases hb
    exact ⟨a, rfl, hb'⟩

private theorem mapM_cons_ok {f : α → Except ε β} {x : α} {xs : List α} {ys : List β}
    (h : (x :: xs).mapM f = .ok ys) :
    ∃ y ys', f x = .ok y ∧ xs.mapM f = .ok ys' ∧ ys = y :: ys' := by
  rw [List.mapM_cons] at h
  cases hx : f x with
  | error e =>
    rw [hx] at h
    cases h
  | ok y =>
    cases hxs : xs.mapM f with
    | error e =>
      rw [hx, hxs] at h
      cases h
    | ok ys' =>
      rw [hx, hxs] at h
      cases h
      exact ⟨y, ys', rfl, rfl, rfl⟩

/-- What is made of each result can be made of all of them at the end. -/
theorem mapM_map_ok {f : α → Except ε β} {g : β → γ} {xs : List α} :
    xs.mapM (fun x => (f x).map g) = (xs.mapM f).map (List.map g) := by
  induction xs with
  | nil => rfl
  | cons x xs ih =>
    rw [List.mapM_cons, List.mapM_cons, ih]
    cases f x with
    | error e => rfl
    | ok y => cases xs.mapM f <;> rfl

/-- Computations that agree on the elements of a list agree on the list. -/
theorem mapM_congr {f g : α → Except ε β} {xs : List α} (h : ∀ x ∈ xs, f x = g x) :
    xs.mapM f = xs.mapM g := by
  induction xs with
  | nil => rfl
  | cons x xs ih =>
    rw [List.forall_mem_cons] at h
    rw [List.mapM_cons, List.mapM_cons, h.1, ih h.2]

/-- A computation for each element succeeds when each of them does. -/
theorem exists_ok_mapM {f : α → Except ε β} {xs : List α} :
    (∃ ys, xs.mapM f = .ok ys) ↔ ∀ x ∈ xs, ∃ y, f x = .ok y := by
  induction xs with
  | nil => exact ⟨fun _ => nofun, fun _ => ⟨[], rfl⟩⟩
  | cons x xs ih =>
    rw [List.forall_mem_cons]
    constructor
    · rintro ⟨ys, h⟩
      obtain ⟨y, ys', hx, hxs, _⟩ := mapM_cons_ok h
      exact ⟨⟨y, hx⟩, ih.mp ⟨ys', hxs⟩⟩
    · rintro ⟨⟨y, hx⟩, hall⟩
      obtain ⟨ys, hxs⟩ := ih.mpr hall
      refine ⟨y :: ys, ?_⟩
      rw [List.mapM_cons, hx, hxs]
      rfl

/-- Two lists are mapped together when each is. -/
theorem exists_of_mapM_append_ok {f : α → Except ε β} {xs ys : List α} {zs : List β}
    (h : (xs ++ ys).mapM f = .ok zs) :
    ∃ zs₁ zs₂, xs.mapM f = .ok zs₁ ∧ ys.mapM f = .ok zs₂ ∧ zs = zs₁ ++ zs₂ := by
  rw [List.mapM_append] at h
  obtain ⟨zs₁, hxs, h⟩ := exists_of_bind_ok h
  obtain ⟨zs₂, hys, h⟩ := exists_of_bind_ok h
  cases h
  exact ⟨zs₁, zs₂, hxs, hys, rfl⟩

/-- A traversal fails with the error of an element. -/
theorem exists_of_mapM_error {f : α → Except ε β} {xs : List α} {e : ε}
    (h : xs.mapM f = .error e) : ∃ x ∈ xs, f x = .error e := by
  induction xs with
  | nil => cases h
  | cons x xs ih =>
    rw [List.mapM_cons] at h
    cases hx : f x with
    | error e' =>
      rw [hx] at h
      cases h
      exact ⟨x, List.mem_cons_self .., hx⟩
    | ok y =>
      rw [hx] at h
      cases hxs : xs.mapM f with
      | ok ys =>
        rw [hxs] at h
        cases h
      | error e' =>
        rw [hxs] at h
        cases h
        obtain ⟨z, hz, hfz⟩ := ih hxs
        exact ⟨z, List.mem_cons_of_mem _ hz, hfz⟩

/-- Each result comes from an element. -/
theorem exists_of_mem_mapM {f : α → Except ε β} {xs : List α} {ys : List β}
    (h : xs.mapM f = .ok ys) {y : β} (hy : y ∈ ys) : ∃ x ∈ xs, f x = .ok y := by
  induction xs generalizing ys with
  | nil =>
    cases h
    cases hy
  | cons x xs ih =>
    obtain ⟨y', ys', hx, hxs, rfl⟩ := mapM_cons_ok h
    rcases List.mem_cons.mp hy with rfl | hy
    · exact ⟨x, List.mem_cons_self .., hx⟩
    · obtain ⟨z, hz, hfz⟩ := ih hxs hy
      exact ⟨z, List.mem_cons_of_mem _ hz, hfz⟩

/-- What each result keeps of its element, the list of results keeps of the list. -/
theorem map_eq_map_of_mapM {f : α → Except ε β} {p : α → γ} {q : β → γ} {xs : List α} {ys : List β}
    (hf : ∀ x y, f x = .ok y → q y = p x) (h : xs.mapM f = .ok ys) : ys.map q = xs.map p := by
  induction xs generalizing ys with
  | nil =>
    cases h
    rfl
  | cons x xs ih =>
    obtain ⟨y, ys', hx, hxs, rfl⟩ := mapM_cons_ok h
    rw [List.map_cons, List.map_cons, hf x y hx, ih hxs]

/-- The results of a traversal are those of the elements, one for each. -/
theorem mapM_eq_ok_iff {f : α → Except ε β} {xs : List α} {ys : List β} :
    xs.mapM f = .ok ys ↔ List.Forall₂ (fun x y => f x = .ok y) xs ys := by
  induction xs generalizing ys with
  | nil =>
    rw [List.forall₂_nil_left_iff]
    exact ⟨fun h => (Except.ok.inj h).symm, fun h => h ▸ rfl⟩
  | cons x xs ih =>
    rw [List.forall₂_cons_left_iff]
    constructor
    · intro h
      obtain ⟨y, ys', hx, hxs, rfl⟩ := mapM_cons_ok h
      exact ⟨y, ys', hx, ih.mp hxs, rfl⟩
    · rintro ⟨y, ys', hx, hxs, rfl⟩
      rw [List.mapM_cons, hx, ih.mpr hxs]
      rfl

/-- Each element has its result. -/
theorem exists_mem_of_mapM {f : α → Except ε β} {xs : List α} {ys : List β}
    (h : xs.mapM f = .ok ys) {x : α} (hx : x ∈ xs) : ∃ y ∈ ys, f x = .ok y := by
  induction xs generalizing ys with
  | nil => cases hx
  | cons x' xs ih =>
    obtain ⟨y', ys', hx', hxs, rfl⟩ := mapM_cons_ok h
    rcases List.mem_cons.mp hx with rfl | hx
    · exact ⟨y', List.mem_cons_self .., hx'⟩
    · obtain ⟨y, hy, hfy⟩ := ih hxs hx
      exact ⟨y, List.mem_cons_of_mem _ hy, hfy⟩

end ApiTypings
