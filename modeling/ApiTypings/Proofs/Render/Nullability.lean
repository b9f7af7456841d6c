import ApiTypings.Proofs.Render.Induction
import ApiTypings.Proofs.Render.Spelling

/-!
# Strict and lax null handling

With strict null handling a nullable type is written as a union of two alternatives, the type and
`null`, and `null` is written nowhere else; with lax handling it is written as the type. The strict
form without its alternatives `null` is the lax form, and a reference is mapped in both ways or, for
the same reason, in neither.
-/

namespace ApiTypings

namespace TypeScript.TypeExpr

/-- The union of some alternatives; a single one stands for itself. -/
def ofAlternatives : List TypeExpr → TypeExpr
  | [t] => t
  | ts => union ts

mutual

/-- A type expression without those alternatives of its unions that are `null`. -/
def withoutNull : TypeExpr → TypeExpr
  | primitive type => primitive type
  | array element => array element.withoutNull
  | union alternatives => ofAlternatives (alternativesWithoutNull alternatives)
  | record key value => record key.withoutNull value.withoutNull
  | ref name => ref name
  | generic name args => generic name (allWithoutNull args)

/-- `withoutNull` for several type expressions. -/
def allWithoutNull : List TypeExpr → List TypeExpr
  | [] => []
  | t :: ts => t.withoutNull :: allWithoutNull ts

/-- `withoutNull` for those of some alternatives that are not `null`. -/
def alternativesWithoutNull : List TypeExpr → List TypeExpr
  | [] => []
  | t :: ts =>
    if t.isNull then alternativesWithoutNull ts
    else t.withoutNull :: alternativesWithoutNull ts

end

/-- Null is taken out of the arguments of a type. -/
theorem withoutNull_ofName (name : String) (args : List TypeExpr) :
    (ofName name args).withoutNull = ofName name (allWithoutNull args) := by
  cases args <;> rfl

/-- `Within s t` says that `s` is `t` or stands in it at some depth. -/
inductive Within : TypeExpr → TypeExpr → Prop where
  | whole {t} : Within t t
  | element {s t} : Within s t → Within s (array t)
  | alternative {s t ts} : t ∈ ts → Within s t → Within s (union ts)
  | key {s key value} : Within s key → Within s (record key value)
  | value {s key value} : Within s value → Within s (record key value)
  | argument {s t name args} : t ∈ args → Within s t → Within s (generic name args)

/-- Two alternatives: a type that is neither a union nor `null`, and `null`. -/
def IsNullable (alternatives : List TypeExpr) : Prop :=
  ∃ inner, alternatives = [inner, primitive .null] ∧ inner.isUnion = false ∧ inner.isNull = false

/-- The forms of mapped references: with strict null handling, unions of a type and `null`; without
it, neither unions nor `null`. -/
inductive Nulled (strict : Bool) : TypeExpr → Prop where
  | primitive {type} : type ≠ .null → Nulled strict (primitive type)
  | ref {name} : Nulled strict (ref name)
  | array {element} : Nulled strict element → Nulled strict (array element)
  | record {key value} : Nulled strict key → Nulled strict value → Nulled strict (record key value)
  | generic {name args} : (∀ t ∈ args, Nulled strict t) → Nulled strict (generic name args)
  | orNull {inner} : strict = true → Nulled strict inner → inner.isUnion = false →
      Nulled strict inner.orNull

namespace Nulled

variable {strict : Bool} {s t inner : TypeExpr} {name : String} {ts : List TypeExpr}

/-- What is written for a reference is not null itself. -/
theorem isNull (h : Nulled strict t) : t.isNull = false := by
  cases h with
  | @primitive type hne =>
    cases type with
    | null => exact absurd rfl hne
    | string | number | boolean | void | unknown => rfl
  | ref | array | record | generic | orNull => rfl

private theorem of_union (h : Nulled strict (union ts)) : strict = true ∧ IsNullable ts := by
  cases h with
  | orNull hstrict hinner hsingle => exact ⟨hstrict, _, rfl, hsingle, hinner.isNull⟩

private theorem allowsNull_eq (h : Nulled strict t) : t.allowsNull = t.isUnion := by
  cases h with
  | primitive | ref | array | record | generic => rfl
  | @orNull inner => simp [TypeExpr.orNull, allowsNull, isUnion, TypeExpr.isNull]

private theorem of_array (h : Nulled strict (TypeExpr.array t)) : Nulled strict t := by
  cases h with
  | array helement => exact helement

private theorem of_stringRecord (h : Nulled strict (stringRecord t)) : Nulled strict t := by
  cases h with
  | record _ hvalue => exact hvalue

private theorem of_orNull (h : Nulled strict t.orNull) : Nulled strict t ∧ t.isUnion = false := by
  cases h with
  | orNull _ hinner hsingle => exact ⟨hinner, hsingle⟩

/-- A type is nulled when its arguments are. -/
theorem ofName (h : ∀ t ∈ ts, Nulled strict t) : Nulled strict (ofName name ts) := by
  cases ts with
  | nil => exact .ref
  | cons t ts => exact .generic h

private theorem ofName_of_forall₂ {args : List Reference}
    (h : List.Forall₂ (fun _ t => Nulled strict t) args ts) :
    Nulled strict (TypeExpr.ofName name ts) := by
  refine .ofName ?_
  induction h with
  | nil => exact fun _ ht => absurd ht List.not_mem_nil
  | cons ht _ ih => exact List.forall_mem_cons.mpr ⟨ht, ih⟩

private theorem of_ofName (h : Nulled strict (TypeExpr.ofName name ts)) :
    ∀ t ∈ ts, Nulled strict t := by
  cases ts with
  | nil => exact fun _ ht => absurd ht List.not_mem_nil
  | cons t ts =>
    cases h with
    | generic hargs => exact hargs

/-- What stands in such a form is one itself, or it is the `null` of a nullable type. -/
theorem of_within (h : Nulled strict t) (hs : Within s t) :
    Nulled strict s ∨ strict = true ∧ s = TypeExpr.primitive .null := by
  induction hs with
  | whole => exact .inl h
  | element _ ih => exact ih h.of_array
  | alternative hmem hwithin ih =>
    cases h with
    | orNull hstrict hinner hsingle =>
      rcases List.mem_cons.mp hmem with rfl | hmem
      · exact ih hinner
      · obtain rfl := List.mem_singleton.mp hmem
        cases hwithin
        exact .inr ⟨hstrict, rfl⟩
  | key _ ih =>
    cases h with
    | record hkey _ => exact ih hkey
  | value _ ih =>
    cases h with
    | record _ hvalue => exact ih hvalue
  | argument hmem _ ih =>
    cases h with
    | generic hargs => exact ih (hargs _ hmem)

/-- With lax null handling neither a union nor `null` stands anywhere. -/
theorem nullFree (h : Nulled false t) (hs : Within s t) : s.isUnion = false ∧ s.isNull = false := by
  rcases h.of_within hs with hs | ⟨⟨⟩, _⟩
  refine ⟨?_, hs.isNull⟩
  cases hs with
  | primitive | ref | array | record | generic => rfl
  | orNull hstrict => cases hstrict

/-- A union anywhere is a nullable type. -/
theorem isNullable (h : Nulled strict t) (hs : Within (union ts) t) : IsNullable ts := by
  rcases h.of_within hs with hs | ⟨_, ⟨⟩⟩
  exact hs.of_union.2

/-- A nullable type without its `null` is the type. -/
theorem withoutNull_orNull (h : t.isNull = false) : t.orNull.withoutNull = t.withoutNull := by
  have hnull : (TypeExpr.primitive Primitive.null).isNull = true := rfl
  rw [TypeExpr.orNull, withoutNull, alternativesWithoutNull, alternativesWithoutNull,
    alternativesWithoutNull, h, hnull]
  rfl

end Nulled

end TypeScript.TypeExpr

namespace Render.Context

open TypeScript (TypeExpr)
open TypeScript.TypeExpr (Nulled Within IsNullable)

variable {ctx : Context} {node : Node} {member : Member}

/-- What may be missing is nulled when the rest is. -/
theorem nulled_nullable {t : TypeExpr} (h : Nulled ctx.strictNull t) :
    Nulled ctx.strictNull (ctx.nullable t) := by
  rw [nullable, h.allowsNull_eq]
  split
  · next hadded =>
    rw [Bool.and_eq_true, Bool.not_eq_true'] at hadded
    exact .orNull hadded.1 h hadded.2
  · exact h

/-- A reference is mapped to one of the forms that the null handling allows. -/
theorem nulled_of_map {r : Reference} {t : TypeExpr} (h : ctx.map node member r = .ok t) :
    Nulled ctx.strictNull t := by
  refine map_induction (motive := fun _ t => Nulled ctx.strictNull t)
    ?param ?array ?nullable ?type ?plain ?done ?argument h
  case param => exact fun _ _ _ => .ref
  case array => exact fun _ _ ih => .array ih
  case nullable => exact fun _ _ ih => nulled_nullable ih
  case type => exact fun _ _ _ _ _ _ ih => .ofName_of_forall₂ ih
  case plain =>
    intro id args shape t _ _ hplain
    cases shape with
    | number | string | boolean | unknown | void =>
      cases hplain
      exact .primitive (by decide)
    | date =>
      cases hplain
      exact .ref
    | collection | dictionary | nullable | task => cases hplain
  case done => exact fun _ _ _ => .primitive (by decide)
  case argument =>
    intro id args shape position r t _ _ hposition _ ih
    cases shape with
    | collection => exact .array ih
    | dictionary => exact .record (.primitive (by decide)) ih
    | nullable => exact nulled_nullable ih
    | task => exact ih
    | number | string | boolean | date | unknown | void => cases hposition

/-- The context with strict or lax null handling. -/
def withNull (ctx : Context) (strict : Bool) : Context := { ctx with strictNull := strict }

/-- What is mapped with strict null handling loses its `null`s to what is mapped without. -/
theorem spells_withoutNull (ctx : Context) : Spells (ctx.withNull true) (ctx.withNull false)
    fun t t' => Nulled true t → t.withoutNull = t' where
  graph := rfl
  primitive := fun _ _ => rfl
  ref := fun _ _ => rfl
  array := fun _ _ ih h => congrArg TypeExpr.array (ih h.of_array)
  stringRecord := fun _ _ ih h => congrArg TypeExpr.stringRecord (ih h.of_stringRecord)
  nullable := by
    intro t t' ih h
    have hlax : (ctx.withNull false).nullable t' = t' := rfl
    rw [hlax]
    rw [nullable] at h ⊢
    split at h
    · next hadded =>
      rw [if_pos hadded, TypeExpr.Nulled.withoutNull_orNull h.of_orNull.1.isNull]
      exact ih h.of_orNull.1
    · next hkept =>
      rw [if_neg hkept]
      exact ih h
  ofName := by
    intro name ts ts' ih h
    have hargs : TypeExpr.allWithoutNull ts = ts' := by
      have hnulled := h.of_ofName
      clear h
      induction ih with
      | nil => rfl
      | cons ih _ ihs =>
        rw [List.forall_mem_cons] at hnulled
        rw [TypeExpr.allWithoutNull, ih hnulled.1, ihs hnulled.2]
    rw [TypeExpr.withoutNull_ofName, hargs]

variable (ctx node member)

/-- Another nullable form around a reference makes a type nullable that was not. -/
theorem map_nullable_strict (r : Reference) : (ctx.withNull true).map node member (.nullable r) =
    ((ctx.withNull true).map node member r).map fun t => if t.isUnion then t else t.orNull := by
  rw [map]
  cases h : (ctx.withNull true).map node member r with
  | error e => rfl
  | ok t =>
    have hunion := (nulled_of_map h).allowsNull_eq
    simp only [Except.map, nullable, withNull, hunion, Bool.true_and, Bool.not_eq_true']
    cases t.isUnion <;> rfl

/-- With lax null handling a nullable form around a reference changes nothing. -/
theorem map_nullable_lax (r : Reference) : (ctx.withNull false).map node member (.nullable r) =
    (ctx.withNull false).map node member r := by
  rw [map]
  cases (ctx.withNull false).map node member r <;> rfl

/-- The nullable type of the library is written as a nullable form is. -/
theorem map_library_nullable {id : Identity} (hlibrary : ctx.graph.node? id = none)
    (hshape : id.builtinShape? = some .nullable) (r : Reference) :
    ctx.map node member (.named id [r]) = ctx.map node member (.nullable r) := by
  rw [map, map, hlibrary, hshape]
  rfl

/-- With strict and with lax null handling a reference is not mapped for the same reason, or it is
mapped to type expressions of which the second is the first without its alternatives `null`. Every
union in the first is a type that is no union, and `null`; in the second there is neither. A
nullable form around a reference, whether written as such or as the library's type, changes nothing
but that with strict handling a type becomes nullable that was not. -/
theorem map_strict_lax (r : Reference) :
    Alike (fun strict lax => strict.withoutNull = lax ∧
        (∀ alternatives, Within (.union alternatives) strict → IsNullable alternatives) ∧
        ∀ s, Within s lax → s.isUnion = false ∧ s.isNull = false)
      ((ctx.withNull true).map node member r) ((ctx.withNull false).map node member r) ∧
    (ctx.withNull true).map node member (.nullable r) =
      ((ctx.withNull true).map node member r).map (fun t => if t.isUnion then t else t.orNull) ∧
    (ctx.withNull false).map node member (.nullable r) =
      (ctx.withNull false).map node member r ∧
    ∀ id, ctx.graph.node? id = none → id.builtinShape? = some .nullable → ∀ strict,
      (ctx.withNull strict).map node member (.named id [r]) =
        (ctx.withNull strict).map node member (.nullable r) := by
  have hstrict : ∀ t, (ctx.withNull true).map node member r = .ok t → Nulled true t :=
    fun _ h => nulled_of_map h
  have hlax : ∀ t, (ctx.withNull false).map node member r = .ok t → Nulled false t :=
    fun _ h => nulled_of_map h
  refine ⟨?_, map_nullable_strict ctx node member r, map_nullable_lax ctx node member r, ?_⟩
  · have halike := (map_alike (spells_withoutNull ctx) node member r).and hstrict hlax
    refine halike.mono fun t t' h => ?_
    obtain ⟨hsame, hstrict, hlax⟩ := h
    exact ⟨hsame hstrict, fun _ => hstrict.isNullable, fun _ => hlax.nullFree⟩
  · intro id hlibrary hshape strict
    exact map_library_nullable (ctx.withNull strict) node member hlibrary hshape r

end Render.Context

end ApiTypings
