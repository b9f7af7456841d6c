import ApiTypings.Builtin
import ApiTypings.Proofs.Reference.WellFormed

/-!
# Arguments of library types

The table of library types is keyed by displayed identities, and so an entry fixes the number of
arguments: a collection has one, a dictionary two, a task at most one, a plain type none. It also
fixes the namespace, which is that of the library.
-/

namespace ApiTypings

/-- Whether a library type of that shape can have `n` arguments. -/
def BuiltinShape.takes (shape : BuiltinShape) (n : Nat) : Bool :=
  match shape with
  | collection | nullable => n == 1
  | dictionary => n == 2
  | task => n ≤ 1
  | _ => n == 0

/-- The arity that a displayed identity ends with, zero if it shows none. -/
def displayedArity (display : List Char) : Nat :=
  match Text.cutLast '\x60' display with
  | some (_, digits) => Text.decimal digits
  | none => 0

/-- The name that a displayed identity starts with, without its arity. -/
def displayedName (display : List Char) : List Char :=
  match Text.cutLast '\x60' display with
  | some (name, _) => name
  | none => display

namespace Identity

private theorem not_mem_qualifiedName {id : Identity} (h : id.IsDotted) :
    '\x60' ∉ id.qualifiedName.toList := by
  obtain ⟨init, last, hname, _⟩ := h
  intro hmem
  generalize id.qualifiedName.toList = cs at hname hmem
  generalize init ++ [last] = segments at hname
  induction hname with
  | last hs => exact absurd (Reference.isNameChar_of_isSegment hs _ hmem) (by decide)
  | more hs _ ih =>
    rcases List.mem_append.mp hmem with hmem | hmem
    · exact absurd (Reference.isNameChar_of_isSegment hs _ hmem) (by decide)
    · rcases List.mem_cons.mp hmem with heq | hmem
      · exact absurd heq (by decide)
      · exact ih hmem

/-- Cutting a displayed identity at its grave accent gives the name and the arity, if it shows
one. -/
theorem cutLast_display {id : Identity} (h : id.IsDotted) :
    Text.cutLast '\x60' id.display.toList =
      if id.arity = 0 then none
      else some (id.qualifiedName.toList, Nat.toDigits 10 id.arity) := by
  have hname := not_mem_qualifiedName h
  rw [display]
  by_cases harity : id.arity = 0
  · rw [if_pos harity, if_pos harity, Text.cutLast_eq_none hname]
  · have hdigits : '\x60' ∉ Nat.toDigits 10 id.arity := by
      intro hmem
      have hdigit := Nat.isDigit_of_mem_toDigits (by decide) (by decide) hmem
      exact absurd hdigit (by decide)
    have hlist : (id.qualifiedName ++ "\x60" ++ toString id.arity).toList =
        id.qualifiedName.toList ++ '\x60' :: Nat.toDigits 10 id.arity := by
      rw [String.toList_append, String.toList_append]
      have hrepr : (toString id.arity).toList = Nat.toDigits 10 id.arity := Nat.toList_repr
      rw [hrepr, List.append_assoc]
      rfl
    rw [if_neg harity, if_neg harity, hlist, Text.cutLast_append_cons hdigits]

/-- A dotted identity displays its arity. -/
theorem displayedArity_display {id : Identity} (h : id.IsDotted) :
    displayedArity id.display.toList = id.arity := by
  rw [displayedArity, cutLast_display h]
  by_cases harity : id.arity = 0
  · rw [if_pos harity, harity]
  · rw [if_neg harity]
    exact Text.decimal_toDigits id.arity

/-- A dotted identity displays its qualified name. -/
theorem displayedName_display {id : Identity} (h : id.IsDotted) :
    displayedName id.display.toList = id.qualifiedName.toList := by
  rw [displayedName, cutLast_display h]
  by_cases harity : id.arity = 0
  · rw [if_pos harity, display, if_pos harity]
  · rw [if_neg harity]

/-- Every entry of the table shows a number of arguments that its shape can have. -/
theorem takes_displayedArity :
    ∀ entry ∈ BuiltinShape.table, entry.2.takes (displayedArity entry.1.toList) = true := by
  decide +kernel

private theorem mem_table_of_builtinShape? {id : Identity} {shape : BuiltinShape}
    (hs : id.builtinShape? = some shape) : (id.display, shape) ∈ BuiltinShape.table := by
  obtain ⟨before, after, htable, _⟩ := List.lookup_eq_some_iff.mp hs
  rw [htable]
  simp

/-- A library type in the table has as many arguments as its shape takes. -/
theorem takes_of_builtinShape? {id : Identity} {shape : BuiltinShape} (h : id.IsDotted)
    (hs : id.builtinShape? = some shape) : shape.takes id.arity = true := by
  rw [← displayedArity_display h]
  exact takes_displayedArity _ (mem_table_of_builtinShape? hs)

/-- Every entry of the table shows a name in the namespace of the library. -/
theorem isSystem_displayedName :
    ∀ entry ∈ BuiltinShape.table,
      (ofQualified (String.ofList (displayedName entry.1.toList)) 0).isSystem = true := by
  decide +kernel

private theorem isSystem_ofQualified (qualified : String) (m n : Nat) :
    (ofQualified qualified m).isSystem = (ofQualified qualified n).isSystem := by
  rw [ofQualified, ofQualified]
  split <;> rfl

/-- A type in the table is one of the library. -/
theorem isSystem_of_builtinShape? {id : Identity} {shape : BuiltinShape} (h : id.IsDotted)
    (hs : id.builtinShape? = some shape) : id.isSystem = true := by
  have hsystem := isSystem_displayedName _ (mem_table_of_builtinShape? hs)
  rw [displayedName_display h, String.ofList_toList, isSystem_ofQualified _ 0 id.arity,
    ofQualified_qualifiedName h] at hsystem
  exact hsystem

end Identity

end ApiTypings
