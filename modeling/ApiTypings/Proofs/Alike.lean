import Mathlib.Data.List.Forall2

/-!
# Computations that fail alike

Two computations are alike when they fail with the same error, or succeed with results that stand
in a given relation. What is composed of computations that are alike, step by step, is alike.
-/

namespace ApiTypings

variable {ε ε' α β α' β' γ δ : Type}

/-- The same error, or results in relation. -/
inductive Alike (R : α → β → Prop) : Except ε α → Except ε β → Prop where
  | ok {a : α} {b : β} : R a b → Alike R (.ok a) (.ok b)
  | error (e : ε) : Alike R (.error e) (.error e)

namespace Alike

variable {R : α → β → Prop} {S : α' → β' → Prop}

/-- Equal results are alike. -/
theorem of_eq {x y : Except ε α} (h : x = y) : Alike Eq x y := by
  subst h
  cases x with
  | error e => exact .error e
  | ok a => exact .ok rfl

/-- Results that are alike up to equality are equal. -/
theorem eq {x y : Except ε α} (h : Alike Eq x y) : x = y := by
  cases h with
  | error e => rfl
  | ok hab => rw [hab]

/-- Computations that are alike fail with the same errors. -/
theorem eq_error_iff {x : Except ε α} {y : Except ε β} (h : Alike R x y) {e : ε} :
    x = .error e ↔ y = .error e := by
  cases h with
  | error e' =>
    constructor
    all_goals
      rintro ⟨⟩
      rfl
  | ok _ => exact ⟨nofun, nofun⟩

/-- A weaker relation between the values keeps results alike. -/
theorem mono {Q : α → β → Prop} {x : Except ε α} {y : Except ε β} (h : Alike R x y)
    (hQ : ∀ a b, R a b → Q a b) : Alike Q x y := by
  cases h with
  | error e => exact .error e
  | ok hab => exact .ok (hQ _ _ hab)

/-- What holds of each result holds of results in relation. -/
theorem and {P : α → Prop} {Q : β → Prop} {x : Except ε α} {y : Except ε β} (h : Alike R x y)
    (hP : ∀ a, x = .ok a → P a) (hQ : ∀ b, y = .ok b → Q b) :
    Alike (fun a b => R a b ∧ P a ∧ Q b) x y := by
  cases h with
  | error e => exact .error e
  | ok hab => exact .ok ⟨hab, hP _ rfl, hQ _ rfl⟩

/-- Related functions keep results alike. -/
theorem map {x : Except ε α} {y : Except ε β} {f : α → α'} {g : β → β'} (h : Alike R x y)
    (hfg : ∀ a b, R a b → S (f a) (g b)) : Alike S (x.map f) (y.map g) := by
  cases h with
  | error e => exact .error e
  | ok hab => exact .ok (hfg _ _ hab)

/-- What follows alike results with alike results is alike. -/
theorem bind {x : Except ε α} {y : Except ε β} {f : α → Except ε α'} {g : β → Except ε β'}
    (h : Alike R x y) (hfg : ∀ a b, R a b → Alike S (f a) (g b)) :
    Alike S (x >>= f) (y >>= g) := by
  cases h with
  | error e => exact .error e
  | ok hab => exact hfg _ _ hab

/-- Errors may be changed in the same way on both sides. -/
theorem mapError {x : Except ε α} {y : Except ε β} (h : Alike R x y) (f : ε → ε') :
    Alike R (x.mapError f) (y.mapError f) := by
  cases h with
  | error e => exact .error (f e)
  | ok hab => exact .ok hab

/-- A computation for each element of a list. -/
theorem mapM {f : γ → Except ε α} {g : γ → Except ε β} {xs : List γ}
    (h : ∀ x ∈ xs, Alike R (f x) (g x)) : Alike (List.Forall₂ R) (xs.mapM f) (xs.mapM g) := by
  induction xs with
  | nil => exact .ok .nil
  | cons x xs ih =>
    rw [List.forall_mem_cons] at h
    rw [List.mapM_cons, List.mapM_cons]
    refine h.1.bind fun a b hab => ?_
    exact (ih h.2).bind fun as bs habs => .ok (.cons hab habs)

/-- A computation for an element that may be missing. -/
theorem optionMapM {f : γ → Except ε α} {g : γ → Except ε β} (x : Option γ)
    (h : ∀ a ∈ x, Alike R (f a) (g a)) :
    Alike (fun y z => y.isSome = z.isSome) (x.mapM f) (x.mapM g) := by
  cases x with
  | none => exact .ok rfl
  | some a =>
    rw [Option.mapM_some, Option.mapM_some]
    exact (h a rfl).map fun _ _ _ => rfl

end Alike

end ApiTypings
