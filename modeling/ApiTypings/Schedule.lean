/-!
# Tasks side by side

Tasks that run side by side are carried out in an order of their own. Once one of them has failed,
others may be passed over, and of several faults any one is told. A schedule is one of the ways in
which this can go; what a program does is read under each of them.
-/

namespace ApiTypings

/-- One of the ways in which tasks that run side by side can go. -/
structure Schedule where
  /-- The numbers of the tasks in the order in which these are carried out. -/
  order : (n : Nat) → List (Fin n)
  order_perm : ∀ n, (order n).Perm (List.finRange n)
  /-- Whether a task is still carried out after another has failed, by how many come after it. -/
  goesOn : Nat → Bool
  /-- Which of `n + 1` faults is told. -/
  told : (n : Nat) → Fin (n + 1)

namespace Schedule

variable {ε α : Type}

/-- One task after the other, up to the first that fails. -/
def inOrder : Schedule where
  order := List.finRange
  order_perm _ := .refl _
  goesOn _ := false
  told _ := 0

/-- The last task first, and all of them whatever fails; of the faults the last one is told. -/
def backwards : Schedule where
  order n := (List.finRange n).reverse
  order_perm n := List.reverse_perm (List.finRange n)
  goesOn _ := true
  told n := Fin.last n

/-- A list in the order of the schedule. -/
def arrange (s : Schedule) (l : List α) : List α := (s.order l.length).map l.get

/-- How tasks with these faults end: one of the faults is told, if there is any. -/
def tell (s : Schedule) : List ε → Except ε Unit
  | [] => .ok ()
  | fault :: faults => .error ((fault :: faults).get (s.told faults.length))

/-- The fault of a task that failed. -/
def fault? : Except ε α → Option ε
  | .error fault => some fault
  | .ok _ => none

/-- The results of tasks, in the order of the tasks, if none of these fails. -/
def gather (s : Schedule) (results : List (Except ε α)) : Except ε (List α) := do
  s.tell (results.filterMap fault?)
  return results.filterMap Except.toOption

end Schedule

end ApiTypings
