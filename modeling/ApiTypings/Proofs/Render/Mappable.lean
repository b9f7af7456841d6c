import ApiTypings.Graph.Reachable
import ApiTypings.Proofs.Builtin
import ApiTypings.Render.Mapping

/-!
# References that can be mapped

Which references have a form in TypeScript, said of the reference and the catalog alone: each of
its parts, the keys of dictionaries left out, is a parameter in range, a discovered type other
than a delegate, or a library type of the table.
-/

namespace ApiTypings

/-- The controllers of the catalog lead to a type, and it lies outside the library. -/
def Catalog.Discovers (c : Catalog) (id : Identity) : Prop :=
  Reachable c c.entryPoints id ∧ id.isSystem = false

namespace Reference

/-- The argument of a named type at that position is the key of a dictionary. -/
def IsKey (id : Identity) (position : Nat) : Prop :=
  id.isSystem = true ∧ id.builtinShape? = some .dictionary ∧ position = 0

/-- `Part p r` says that `p` stands in `r`, and not in the key of a dictionary. -/
inductive Part : Reference → Reference → Prop where
  | whole {r} : Part r r
  | element {p r} : Part p r → Part p (array r)
  | inner {p r} : Part p r → Part p (nullable r)
  | argument {p id args position r} : args[position]? = some r → ¬ IsKey id position →
      Part p r → Part p (named id args)

/-- A parameter is its only part. -/
theorem part_param_iff {p : Reference} {position : Nat} :
    Part p (param position) ↔ p = param position := by
  constructor
  · rintro ⟨⟩
    rfl
  · rintro rfl
    exact .whole

/-- The parts of an array are itself and those of its element. -/
theorem part_array_iff {p element : Reference} :
    Part p (array element) ↔ p = array element ∨ Part p element := by
  constructor
  · intro h
    cases h with
    | whole => exact .inl rfl
    | element h => exact .inr h
  · rintro (rfl | h)
    · exact .whole
    · exact .element h

/-- The parts of a nullable reference are itself and those of what it holds. -/
theorem part_nullable_iff {p inner : Reference} :
    Part p (nullable inner) ↔ p = nullable inner ∨ Part p inner := by
  constructor
  · intro h
    cases h with
    | whole => exact .inl rfl
    | inner h => exact .inr h
  · rintro (rfl | h)
    · exact .whole
    · exact .inner h

/-- The parts of a named type are itself and those of its arguments other than keys. -/
theorem part_named_iff {p : Reference} {id : Identity} {args : List Reference} :
    Part p (named id args) ↔ p = named id args ∨
      ∃ i r, args[i]? = some r ∧ ¬ IsKey id i ∧ Part p r := by
  constructor
  · intro h
    cases h with
    | whole => exact .inl rfl
    | argument hr hkey h => exact .inr ⟨_, _, hr, hkey, h⟩
  · rintro (rfl | ⟨i, r, hr, hkey, h⟩)
    · exact .whole
    · exact .argument hr hkey h

/-- What a part must be to have a form in a type with `arity` generic parameters. -/
def HasForm (c : Catalog) (arity : Nat) : Reference → Prop
  | named id _ =>
    (c.Discovers id ∧ ∃ d, c.get? id = some d ∧ d.kind ≠ .delegate) ∨
      (id.isSystem = true ∧ id.builtinShape?.isSome = true)
  | param position => position < arity
  | array _ => True
  | nullable _ => True

/-- Each part of the reference has a form. -/
def Mappable (c : Catalog) (arity : Nat) (r : Reference) : Prop :=
  ∀ p, Part p r → HasForm c arity p

/-- What a part names, the reference names. -/
theorem Part.identities_subset {p r : Reference} (h : Part p r) : p.identities ⊆ r.identities := by
  induction h with
  | whole => exact List.Subset.refl _
  | element _ ih => exact ih
  | inner _ ih => exact ih
  | argument hget _ _ ih =>
    intro id hid
    rw [identities, identitiesOfAll_eq]
    exact List.mem_cons_of_mem _ (List.mem_flatMap.mpr ⟨_, List.mem_of_getElem? hget, ih hid⟩)

end Reference

end ApiTypings
