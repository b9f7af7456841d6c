import ApiTypings.Proofs.Render.Induction
import ApiTypings.Proofs.Render.Mappable

/-!
# References that are refused

What stands against a form for a part of a reference is a matter of the part alone: a library type
that the table does not list, a type that was not discovered, a delegate, a parameter that the node
does not have. The mapping looks at every part but the keys of dictionaries, so it fails exactly
when one of these is refused, and its error gives the reason for such a part.
-/

namespace ApiTypings

open Reference (Part IsKey)
open TypeScript (TypeExpr)

namespace Render.Context

/-- A part of a reference has no form in the node, for the given reason. -/
inductive Refuses (ctx : Context) (node : Node) : Reference → Unmappable.Reason → Prop where
  | unlisted {id args} : id.isSystem = true → id.builtinShape? = none →
      Refuses ctx node (.named id args) (.noMapping (.named id args))
  | undiscovered {id args} : id.isSystem = false → ctx.graph.node? id = none →
      Refuses ctx node (.named id args) (.noMapping (.named id args))
  | delegate {id args target} : ctx.graph.node? id = some target → target.kind = .delegate →
      Refuses ctx node (.named id args) (.delegate id)
  | parameter {position} : node.genericParameters.length ≤ position →
      Refuses ctx node (.param position) (.parameterOutOfRange position node.identity)

/-- No part of the reference is refused, but for what stands in the keys of dictionaries. -/
def Allows (ctx : Context) (node : Node) (r : Reference) : Prop :=
  ∀ p reason, Part p r → ¬ ctx.Refuses node p reason

variable {ctx : Context} {node : Node} {member : Member}

/-- An array is not refused for itself. -/
theorem not_refuses_array {element : Reference} {reason : Unmappable.Reason} :
    ¬ ctx.Refuses node (.array element) reason := by
  rintro ⟨⟩

/-- A nullable reference is not refused for itself. -/
theorem not_refuses_nullable {inner : Reference} {reason : Unmappable.Reason} :
    ¬ ctx.Refuses node (.nullable inner) reason := by
  rintro ⟨⟩

/-- A type of the table that has no node has a form. -/
theorem not_refuses_library {id : Identity} {args : List Reference} {shape : BuiltinShape}
    {reason : Unmappable.Reason} (hd : id.IsDotted) (hn : ctx.graph.node? id = none)
    (hs : id.builtinShape? = some shape) : ¬ ctx.Refuses node (.named id args) reason := by
  intro hrefuses
  cases hrefuses with
  | unlisted _ hnone =>
    rw [hs] at hnone
    cases hnone
  | undiscovered hsys _ =>
    rw [Identity.isSystem_of_builtinShape? hd hs] at hsys
    cases hsys
  | delegate htarget _ =>
    rw [hn] at htarget
    cases htarget

/-! ### Mapped references -/

/-- Of the arguments of a library type, the one that it is made from is the only one that is no
key. -/
theorem not_isKey_iff {id : Identity} {args : List Reference} {shape : BuiltinShape}
    {i position : Nat} {r : Reference} (hr : (Reference.named id args).WellFormed)
    (hs : id.builtinShape? = some shape) (hposition : shape.argument? = some position)
    (hget : args[i]? = some r) : ¬ IsKey id i ↔ i = position := by
  have htakes := Identity.takes_of_builtinShape? hr.2.1 hs
  rw [hr.1] at htakes
  have hlt := (List.getElem?_eq_some_iff.mp hget).1
  have hkey : IsKey id i ↔ shape = .dictionary ∧ i = 0 := by
    simp [IsKey, Identity.isSystem_of_builtinShape? hr.2.1 hs, hs]
  rw [hkey]
  cases shape with
  | number | string | boolean | date | unknown | void => cases hposition
  | collection | nullable | task =>
    simp only [BuiltinShape.takes, beq_iff_eq, decide_eq_true_eq] at htakes
    cases hposition
    simp only [reduceCtorEq, false_and, not_false_eq_true, true_iff]
    omega
  | dictionary =>
    simp only [BuiltinShape.takes, beq_iff_eq] at htakes
    cases hposition
    simp only [true_and]
    omega

/-- A library type that is not made from an argument has none. -/
theorem args_eq_nil_of_plain {id : Identity} {args : List Reference} {shape : BuiltinShape}
    {t : TypeExpr} (hr : (Reference.named id args).WellFormed)
    (hs : id.builtinShape? = some shape) (ht : shape.plain? = some t) : args = [] := by
  have htakes := Identity.takes_of_builtinShape? hr.2.1 hs
  rw [hr.1] at htakes
  cases shape <;> cases ht <;> simpa [BuiltinShape.takes] using htakes

/-- No part of a reference that is mapped is refused. -/
theorem allows_of_map (hsys : ∀ id, id.isSystem = true → ctx.graph.node? id = none)
    {r : Reference} {t : TypeExpr} (hr : r.WellFormed) (h : ctx.map node member r = .ok t) :
    ctx.Allows node r := by
  refine map_induction (motive := fun r _ => r.WellFormed → ctx.Allows node r)
    ?param ?array ?nullable ?type ?plain ?done ?argument h hr
  case param =>
    intro position name hname _ p reason hp hrefuses
    obtain rfl := Reference.part_param_iff.mp hp
    cases hrefuses with
    | parameter hle =>
      rw [List.getElem?_eq_none hle] at hname
      cases hname
  case array =>
    intro element _ ih hr p reason hp
    rcases Reference.part_array_iff.mp hp with rfl | hp
    · exact not_refuses_array
    · exact ih hr p reason hp
  case nullable =>
    intro inner _ ih hr p reason hp
    rcases Reference.part_nullable_iff.mp hp with rfl | hp
    · exact not_refuses_nullable
    · exact ih hr p reason hp
  case type =>
    intro id args target ts hn hkind ih hr p reason hp
    rcases Reference.part_named_iff.mp hp with rfl | ⟨i, a, ha, _, hp⟩
    · rintro (⟨hs, _⟩ | ⟨_, hnone⟩ | ⟨htarget, hdelegate⟩)
      · rw [hsys id hs] at hn
        cases hn
      · rw [hn] at hnone
        cases hnone
      · rw [hn] at htarget
        cases htarget
        exact hkind hdelegate
    · have hmem := List.mem_of_getElem? ha
      have hargs := ((List.forall₂_and_left args ts).mp (ih.imp fun _ _ h => ⟨h, trivial⟩)).1
      exact hargs a hmem (Reference.allWellFormed_iff.mp hr.2.2 a hmem) p reason hp
  case plain =>
    intro id args shape t hn hs ht hr p reason hp
    obtain rfl := args_eq_nil_of_plain hr hs ht
    rcases Reference.part_named_iff.mp hp with rfl | ⟨i, a, ha, _⟩
    · exact not_refuses_library hr.2.1 hn hs
    · cases ha
  case done =>
    intro id hn hs hr p reason hp
    rcases Reference.part_named_iff.mp hp with rfl | ⟨i, a, ha, _⟩
    · exact not_refuses_library hr.2.1 hn hs
    · cases ha
  case argument =>
    intro id args shape position a t hn hs hposition hget ih hr p reason hp
    rcases Reference.part_named_iff.mp hp with rfl | ⟨i, b, hb, hkey, hp⟩
    · exact not_refuses_library hr.2.1 hn hs
    · -- The argument that is no key is the one that was mapped.
      obtain rfl := (not_isKey_iff hr hs hposition hb).mp hkey
      rw [hget] at hb
      cases hb
      have hmem := List.mem_of_getElem? hget
      exact ih (Reference.allWellFormed_iff.mp hr.2.2 a hmem) p reason hp

/-! ### Failures -/

/-- A library type with the right number of arguments fails only with the argument that it is made
from. -/
theorem argument_of_builtin_error {shape : BuiltinShape} {args : List Reference} {e : Unmappable}
    {f : Reference → Except Unmappable TypeExpr} {missing : Nat → Except Unmappable TypeExpr}
    (htakes : shape.takes args.length = true)
    (h : ctx.builtin shape (!args.isEmpty) (fun i => (args[i]?.map f).getD (missing i)) =
      .error e) :
    ∃ i r, shape.argument? = some i ∧ args[i]? = some r ∧ f r = .error e := by
  cases shape with
  | number | string | boolean | date | unknown | void => cases h
  | collection | nullable =>
    obtain ⟨r, rfl⟩ : ∃ r, args = [r] := by
      rw [← List.length_eq_one_iff]
      simpa [BuiltinShape.takes] using htakes
    exact ⟨0, r, rfl, rfl, map_eq_error_iff.mp h⟩
  | dictionary =>
    obtain ⟨key, value, rfl⟩ : ∃ key value, args = [key, value] := by
      rw [← List.length_eq_two]
      simpa [BuiltinShape.takes] using htakes
    exact ⟨1, value, rfl, rfl, map_eq_error_iff.mp h⟩
  | task =>
    cases args with
    | nil => cases h
    | cons r rs => exact ⟨0, r, rfl, rfl, h⟩

/-- The error of a reference gives the reason for a part of it, in the node and the member that it
was mapped for. -/
def Explains (ctx : Context) (node : Node) (member : Member) (r : Reference) (e : Unmappable) :
    Prop :=
  ∃ p reason, Part p r ∧ ctx.Refuses node p reason ∧ e = ⟨node.identity, member, reason⟩

/-- What a reference is refused for, it is refused for as part of another. -/
theorem Explains.of_part {r s : Reference} {e : Unmappable} (hpart : ∀ p, Part p r → Part p s)
    (h : ctx.Explains node member r e) : ctx.Explains node member s e := by
  obtain ⟨p, reason, hp, hrefuses, heq⟩ := h
  exact ⟨p, reason, hpart p hp, hrefuses, heq⟩

/-- A refusal of the whole reference explains the failure. -/
theorem Explains.whole {r : Reference} {reason : Unmappable.Reason}
    (h : ctx.Refuses node r reason) :
    ctx.Explains node member r ⟨node.identity, member, reason⟩ :=
  ⟨r, reason, .whole, h, rfl⟩

/-- The mapping fails for nothing but a part that is refused. -/
theorem explains_of_map_error (hsys : ∀ id, id.isSystem = true → ctx.graph.node? id = none)
    {r : Reference} {e : Unmappable} (hr : r.WellFormed)
    (h : ctx.map node member r = .error e) : ctx.Explains node member r e := by
  induction r using Reference.induction with
  | param position =>
    rw [map] at h
    cases hp : node.genericParameters[position]? with
    | some name =>
      rw [hp] at h
      cases h
    | none =>
      rw [hp] at h
      cases h
      exact .whole (.parameter (List.getElem?_eq_none_iff.mp hp))
  | array element ih =>
    rw [map, map_eq_error_iff] at h
    exact (ih hr h).of_part fun _ => .element
  | nullable inner ih =>
    rw [map, map_eq_error_iff] at h
    exact (ih hr h).of_part fun _ => .inner
  | named id args ih =>
    have hall := Reference.allWellFormed_iff.mp hr.2.2
    rw [map] at h
    cases hn : ctx.graph.node? id with
    | some target =>
      rw [hn] at h
      by_cases hk : target.kind = .delegate
      · simp only [hk, if_true] at h
        cases h
        exact .whole (.delegate hn hk)
      · simp only [hk, if_false] at h
        rw [map_eq_error_iff, mapAll_eq] at h
        obtain ⟨a, ha, hmap⟩ := exists_of_mapM_error h
        obtain ⟨i, hi⟩ := List.mem_iff_getElem?.mp ha
        have hkey : ¬ IsKey id i := by
          rintro ⟨hs, _⟩
          rw [hsys id hs] at hn
          cases hn
        exact (ih a ha (hall a ha) hmap).of_part fun _ => .argument hi hkey
    | none =>
      cases hs : id.builtinShape? with
      | none =>
        rw [hn, hs] at h
        cases h
        cases hsystem : id.isSystem with
        | true => exact .whole (.unlisted hsystem hs)
        | false => exact .whole (.undiscovered hsystem hn)
      | some shape =>
        have htakes := Identity.takes_of_builtinShape? hr.2.1 hs
        rw [hr.1] at htakes
        simp only [hn, hs, mapAt_eq] at h
        obtain ⟨i, a, hi, hget, hmap⟩ := argument_of_builtin_error htakes h
        have ha := List.mem_of_getElem? hget
        have hkey := (not_isKey_iff hr hs hi hget).mpr rfl
        exact (ih a ha (hall a ha) hmap).of_part fun _ => .argument hget hkey

/-- A reference is mapped when no part of it is refused. -/
theorem exists_map_iff_allows (hsys : ∀ id, id.isSystem = true → ctx.graph.node? id = none)
    {r : Reference} (hr : r.WellFormed) :
    (∃ t, ctx.map node member r = .ok t) ↔ ctx.Allows node r := by
  constructor
  · rintro ⟨t, h⟩
    exact allows_of_map hsys hr h
  · intro hallows
    cases h : ctx.map node member r with
    | ok t => exact ⟨t, rfl⟩
    | error e =>
      obtain ⟨p, reason, hp, hrefuses, _⟩ := explains_of_map_error hsys hr h
      exact absurd hrefuses (hallows p reason hp)

end Render.Context

end ApiTypings
