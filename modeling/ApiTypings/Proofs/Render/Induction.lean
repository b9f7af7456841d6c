import ApiTypings.Proofs.Success
import ApiTypings.Render.Mapping

/-!
# Induction over mapped references

A reference that is mapped has one of few forms: a parameter, an array or nullable form, a
discovered type with its arguments mapped, a library type that stands for itself, or one that
stands for one of its arguments. What holds of each form, given that it holds of the parts, holds
of every reference and the type expression it is mapped to.
-/

namespace ApiTypings

open TypeScript (TypeExpr)

namespace BuiltinShape

/-- The type expression of a library type whose arguments are not looked at. -/
def plain? : BuiltinShape → Option TypeExpr
  | number => some (.primitive .number)
  | string => some (.primitive .string)
  | boolean => some (.primitive .boolean)
  | date => some (.ref "Date")
  | unknown => some (.primitive .unknown)
  | void => some (.primitive .void)
  | _ => none

/-- The position of the argument that a library type is made from. -/
def argument? : BuiltinShape → Option Nat
  | collection | nullable | task => some 0
  | dictionary => some 1
  | _ => none

end BuiltinShape

namespace Render.Context

/-- What a library type makes of its argument. -/
def wrap (ctx : Context) (shape : BuiltinShape) (argument : TypeExpr) : TypeExpr :=
  match shape with
  | .collection => .array argument
  | .dictionary => .stringRecord argument
  | .nullable => ctx.nullable argument
  | _ => argument

variable {ctx : Context} {node : Node} {member : Member}

private theorem forall₂_of_mapM {f : Reference → Except Unmappable TypeExpr}
    {motive : Reference → TypeExpr → Prop} {args : List Reference} {ts : List TypeExpr}
    (ih : ∀ r ∈ args, ∀ t, f r = .ok t → motive r t) (h : args.mapM f = .ok ts) :
    List.Forall₂ motive args ts := by
  have hmem := (List.forall₂_and_left args ts).mpr ⟨fun _ hr => hr, mapM_eq_ok_iff.mp h⟩
  exact hmem.imp fun r t hrt => ih r hrt.1 t hrt.2

/-- A library type is mapped on its own, or to what it makes of one of its arguments; a task without
arguments is void. -/
theorem cases_of_builtin {shape : BuiltinShape} {args : List Reference} {t : TypeExpr}
    {f : Reference → Except Unmappable TypeExpr} {missing : Nat → Unmappable}
    (h : ctx.builtin shape (!args.isEmpty)
      (fun i => (args[i]?.map f).getD (.error (missing i))) = .ok t) :
    shape.plain? = some t ∨ (shape = .task ∧ args = [] ∧ t = .primitive .void) ∨
      ∃ i r a, shape.argument? = some i ∧ args[i]? = some r ∧ f r = .ok a ∧
        t = ctx.wrap shape a := by
  have hat : ∀ {i a}, (args[i]?.map f).getD (.error (missing i)) = .ok a →
      ∃ r, args[i]? = some r ∧ f r = .ok a := by
    intro i a ha
    cases hr : args[i]? with
    | none =>
      rw [hr] at ha
      cases ha
    | some r =>
      rw [hr] at ha
      exact ⟨r, rfl, ha⟩
  cases shape with
  | number | string | boolean | date | unknown | void =>
    cases h
    exact .inl rfl
  | collection | dictionary | nullable =>
    obtain ⟨a, ha, rfl⟩ := exists_of_map_ok h
    obtain ⟨r, hr, hf⟩ := hat ha
    exact .inr (.inr ⟨_, r, a, rfl, hr, hf, rfl⟩)
  | task =>
    cases args with
    | nil =>
      cases h
      exact .inr (.inl ⟨rfl, rfl, rfl⟩)
    | cons r rs =>
      obtain ⟨r', hr, hf⟩ := hat (i := 0) h
      exact .inr (.inr ⟨0, r', t, rfl, hr, hf, rfl⟩)

/-- Induction over a reference that is mapped, with a hypothesis for each part that is mapped with
it. -/
theorem map_induction {motive : Reference → TypeExpr → Prop}
    (param : ∀ position name, node.genericParameters[position]? = some name →
      motive (.param position) (.ref name))
    (array : ∀ element t, motive element t → motive (.array element) (.array t))
    (nullable : ∀ inner t, motive inner t → motive (.nullable inner) (ctx.nullable t))
    (type : ∀ id args target ts, ctx.graph.node? id = some target → target.kind ≠ .delegate →
      List.Forall₂ motive args ts → motive (.named id args) (.ofName id.declaredName ts))
    (plain : ∀ id args shape t, ctx.graph.node? id = none → id.builtinShape? = some shape →
      shape.plain? = some t → motive (.named id args) t)
    (done : ∀ id, ctx.graph.node? id = none → id.builtinShape? = some .task →
      motive (.named id []) (.primitive .void))
    (argument : ∀ id args shape position r t, ctx.graph.node? id = none →
      id.builtinShape? = some shape → shape.argument? = some position →
      args[position]? = some r → motive r t → motive (.named id args) (ctx.wrap shape t))
    {r : Reference} {t : TypeExpr} (h : ctx.map node member r = .ok t) : motive r t := by
  induction r using Reference.induction generalizing t with
  | param position =>
    rw [map] at h
    cases hp : node.genericParameters[position]? with
    | none =>
      rw [hp] at h
      cases h
    | some name =>
      rw [hp] at h
      cases h
      exact param position name hp
  | array element ih =>
    rw [map] at h
    obtain ⟨a, ha, rfl⟩ := exists_of_map_ok h
    exact array element a (ih ha)
  | nullable inner ih =>
    rw [map] at h
    obtain ⟨a, ha, rfl⟩ := exists_of_map_ok h
    exact nullable inner a (ih ha)
  | named id args ih =>
    rw [map] at h
    cases hn : ctx.graph.node? id with
    | some target =>
      rw [hn] at h
      by_cases hk : target.kind = .delegate
      · simp only [hk, if_true] at h
        cases h
      · simp only [hk, if_false] at h
        obtain ⟨ts, hts, rfl⟩ := exists_of_map_ok h
        rw [mapAll_eq] at hts
        exact type id args target ts hn hk (forall₂_of_mapM (fun r hr t => ih r hr) hts)
    | none =>
      cases hs : id.builtinShape? with
      | none =>
        rw [hn, hs] at h
        cases h
      | some shape =>
        simp only [hn, hs, mapAt_eq] at h
        rcases cases_of_builtin h with hplain | ⟨rfl, rfl, rfl⟩ | ⟨i, r, a, hi, hr, ha, rfl⟩
        · exact plain id args shape t hn hs hplain
        · exact done id hn hs
        · exact argument id args shape i r a hn hs hi hr (ih r (List.mem_of_getElem? hr) ha)

end Render.Context

end ApiTypings
