import ApiTypings.Proofs.Alike
import ApiTypings.Proofs.Success
import ApiTypings.Schedule
import Mathlib.Data.List.Basic

/-!
# What a schedule decides

Whether tasks that run side by side succeed, and with which results, is the same under each
schedule. If some fail, one of their faults is told, and each of them is told under some schedule.
-/

namespace ApiTypings.Schedule

variable {ε α β γ : Type} {s : Schedule}

/-- A schedule carries out every task once. -/
theorem arrange_perm (s : Schedule) (l : List α) : (s.arrange l).Perm l := by
  have h := (s.order_perm l.length).map l.get
  rwa [List.map_get_finRange] at h

/-! ## Faults -/

/-- Success is told exactly when there are no faults. -/
theorem tell_eq_ok_iff {faults : List ε} : s.tell faults = .ok () ↔ faults = [] := by
  cases faults with
  | nil => exact ⟨fun _ => rfl, fun _ => rfl⟩
  | cons fault faults => exact ⟨nofun, nofun⟩

/-- Only a fault of a task is told. -/
theorem mem_of_tell {faults : List ε} {e : ε} (h : s.tell faults = .error e) : e ∈ faults := by
  cases faults with
  | nil => cases h
  | cons fault faults =>
    cases h
    exact List.get_mem ..

/-- The schedule that tells the fault with a given number, counted around if there are too few. -/
def telling (number : Nat) : Schedule where
  order := inOrder.order
  order_perm := inOrder.order_perm
  goesOn := inOrder.goesOn
  told n := ⟨number % (n + 1), Nat.mod_lt number n.succ_pos⟩

/-- Each fault is told under some schedule. -/
theorem exists_tell_eq_error {faults : List ε} {e : ε} (h : e ∈ faults) :
    ∃ s : Schedule, s.tell faults = .error e := by
  obtain ⟨⟨number, hnumber⟩, rfl⟩ := List.get_of_mem h
  cases faults with
  | nil => cases h
  | cons fault faults =>
    refine ⟨telling number, congrArg Except.error ?_⟩
    have htold : (telling number).told faults.length = ⟨number, hnumber⟩ :=
      Fin.ext (Nat.mod_eq_of_lt hnumber)
    rw [htold]

/-! ## Results -/

/-- No task has failed when all have values. -/
theorem eq_map_ok_of_faults {results : List (Except ε α)} (h : results.filterMap fault? = []) :
    results = (results.filterMap Except.toOption).map .ok := by
  induction results with
  | nil => rfl
  | cons result results ih =>
    cases result with
    | error e => cases h
    | ok value => exact congrArg (.ok value :: ·) (ih h)

/-- The values of tasks are put together when all of them have one, under any schedule. -/
theorem gather_eq_ok_iff {results : List (Except ε α)} {values : List α} :
    s.gather results = .ok values ↔ results = values.map .ok := by
  constructor
  · intro h
    obtain ⟨⟨⟩, htell, h⟩ := exists_of_bind_ok h
    cases h
    exact eq_map_ok_of_faults (tell_eq_ok_iff.mp htell)
  · rintro rfl
    have hfaults : (values.map (Except.ok (ε := ε))).filterMap fault? = [] := by
      rw [List.filterMap_map]
      exact List.filterMap_eq_nil_iff.mpr fun _ _ => rfl
    have hvalues : (values.map (Except.ok (ε := ε))).filterMap Except.toOption = values := by
      rw [List.filterMap_map]
      exact List.filterMap_some
    rw [gather, hfaults, hvalues]
    rfl

/-- Gathering fails with what is told of the faults. -/
theorem gather_eq_error_iff {results : List (Except ε α)} {e : ε} :
    s.gather results = .error e ↔ s.tell (results.filterMap fault?) = .error e := by
  rw [gather]
  cases s.tell (results.filterMap fault?) with
  | error e' =>
    constructor
    all_goals
      rintro ⟨⟩
      rfl
  | ok => exact ⟨nofun, nofun⟩

/-- A result has a fault when it is that fault. -/
theorem fault?_eq_some_iff {result : Except ε α} {e : ε} :
    fault? result = some e ↔ result = .error e := by
  cases result with
  | error e' =>
    constructor
    all_goals
      rintro ⟨⟩
      rfl
  | ok value => exact ⟨nofun, nofun⟩

private theorem fault?_eq_of_alike {R : α → β → Prop} {x : Except ε α} {y : Except ε β}
    (h : Alike R x y) : fault? x = fault? y := by
  cases h <;> rfl

section Tasks

variable {f : α → Except ε β} {xs : List α}

/-- The faults are those of the results. -/
theorem mem_faults_iff {e : ε} : e ∈ (xs.map f).filterMap fault? ↔ ∃ x ∈ xs, f x = .error e := by
  rw [List.filterMap_map, List.mem_filterMap]
  simp only [Function.comp_apply, fault?_eq_some_iff]

/-- Tasks succeed side by side when they succeed one after the other. -/
theorem gather_map_eq_ok_iff {ys : List β} : s.gather (xs.map f) = .ok ys ↔ xs.mapM f = .ok ys := by
  rw [gather_eq_ok_iff, mapM_eq_ok_iff, ← List.forall₂_eq_eq_eq, List.forall₂_map_left_iff,
    List.forall₂_map_right_iff]

/-- The faults that are told under some schedule are those of the tasks that fail. -/
theorem exists_gather_eq_error_iff {e : ε} :
    (∃ s : Schedule, s.gather (xs.map f) = .error e) ↔ ∃ x ∈ xs, f x = .error e := by
  simp only [gather_eq_error_iff]
  rw [← mem_faults_iff]
  exact ⟨fun ⟨_, h⟩ => mem_of_tell h, exists_tell_eq_error⟩

/-- Tasks that are alike end alike under one schedule. -/
theorem gather_alike {R : β → γ → Prop} {g : α → Except ε γ} (s : Schedule)
    (h : ∀ x ∈ xs, Alike R (f x) (g x)) :
    Alike (List.Forall₂ R) (s.gather (xs.map f)) (s.gather (xs.map g)) := by
  -- The same tasks fail on both sides, so that the same fault is told.
  have hfaults : (xs.map f).filterMap fault? = (xs.map g).filterMap fault? := by
    rw [List.filterMap_map, List.filterMap_map]
    exact List.filterMap_congr fun x hx => fault?_eq_of_alike (h x hx)
  cases hgather : s.gather (xs.map f) with
  | error e =>
    rw [gather_eq_error_iff, hfaults, ← gather_eq_error_iff] at hgather
    rw [hgather]
    exact .error e
  | ok ys =>
    have halike := Alike.mapM h
    rw [gather_map_eq_ok_iff.mp hgather] at halike
    cases hmapM : xs.mapM g with
    | error e =>
      rw [hmapM] at halike
      cases halike
    | ok zs =>
      rw [hmapM] at halike
      rwa [gather_map_eq_ok_iff.mpr hmapM]

end Tasks

end ApiTypings.Schedule
