import ApiTypings.Proofs.Success
import ApiTypings.Render.Writer

/-!
# Type positions of a method

The type expressions of a declaration, wherever they stand: in its base, in its properties, in
the signatures of its methods and in the calls of their bodies. The URL and the payload of a
request hold none, so the method for an action has the types of its signature only.
-/

namespace ApiTypings

namespace TypeScript

mutual

/-- The type expressions in an expression: the type arguments of its calls. -/
def Expr.types : Expr → List TypeExpr
  | .ident _ => []
  | .string _ => []
  | .call callee typeArgs args => callee.types ++ typeArgs ++ Expr.typesOfAll args
  | .object fields => Expr.fieldTypes fields
  | .member object _ => object.types
  | .template parts => TemplatePart.typesOfAll parts

/-- The type expressions in several expressions. -/
def Expr.typesOfAll : List Expr → List TypeExpr
  | [] => []
  | e :: es => e.types ++ Expr.typesOfAll es

/-- The type expressions in the fields of an object literal. -/
def Expr.fieldTypes : List (String × Expr) → List TypeExpr
  | [] => []
  | (_, value) :: fields => value.types ++ Expr.fieldTypes fields

/-- The type expressions in a part of a template literal. -/
def TemplatePart.types : TemplatePart → List TypeExpr
  | .text _ => []
  | .hole value => value.types

/-- The type expressions in several parts of a template literal. -/
def TemplatePart.typesOfAll : List TemplatePart → List TypeExpr
  | [] => []
  | p :: ps => p.types ++ TemplatePart.typesOfAll ps

end

/-- The type expressions in a statement. -/
def Statement.types : Statement → List TypeExpr
  | returns value => value.types

/-- The type expressions in a method: those of its parameters, its result and its body. -/
def Method.types (m : Method) : List TypeExpr :=
  m.params.map Parameter.type ++ m.result.toList ++
    m.body.toList.flatMap fun body => body.flatMap Statement.types

/-- The type expressions in a declaration. -/
def Declaration.types (d : Declaration) : List TypeExpr :=
  match d.kind with
  | .interface base properties methods =>
    base.toList ++ properties.map Property.type ++ methods.flatMap Method.types
  | .enumeration _ => []
  | .stringWrapper => []
  | .classType methods => methods.flatMap Method.types

private theorem TemplatePart.typesOfAll_append (ps qs : List TemplatePart) :
    TemplatePart.typesOfAll (ps ++ qs) =
      TemplatePart.typesOfAll ps ++ TemplatePart.typesOfAll qs := by
  induction ps with
  | nil => rfl
  | cons p ps ih =>
    rw [List.cons_append, TemplatePart.typesOfAll, TemplatePart.typesOfAll, ih, List.append_assoc]

end TypeScript

open TypeScript

namespace Render

private theorem types_payload (verb : Verb) (arguments : List Argument) :
    (payload verb arguments).types = [] := by
  have hfields : ∀ as : List Argument,
      Expr.fieldTypes (as.map fun a => (a.key, .ident a.ident)) = [] := by
    intro as
    induction as with
    | nil => rfl
    | cons a as ih => simpa [Expr.fieldTypes, Expr.types] using ih
  unfold payload
  split
  · rfl
  · rw [Expr.types, hfields]

namespace Route

private theorem types_textPart (text : List Char) :
    TemplatePart.typesOfAll (textPart text) = [] := by
  rw [textPart]
  split <;> rfl

private theorem types_parts (arguments : List Argument) (tail : List Char)
    (segments : List (List Char × List Char)) (bound : List Nat) :
    TemplatePart.typesOfAll (parts arguments tail segments bound) = [] := by
  induction segments generalizing bound with
  | nil => exact types_textPart tail
  | cons s segments ih =>
    cases bound with
    | nil => exact types_textPart tail
    | cons position bound =>
      rw [parts, TemplatePart.typesOfAll_append, TemplatePart.typesOfAll_append, types_textPart, ih]
      cases arguments[position]? <;> rfl

/-- URLs write no types. -/
theorem types_url {path : String} {arguments : List Argument} {made : Expr × List Nat}
    (h : url path arguments = .ok made) : made.1.types = [] := by
  rw [url] at h
  split at h
  · cases h
  · cases h
    rfl
  · cases h
    rw [Expr.types, types_parts]

end Route

/-- What a writer puts into a type position: the names of the contract, a mapped reference, or
the promise of one. -/
inductive Context.Writes (ctx : Context) (node : Node) (refs : List (Reference × Member)) :
    TypeExpr → Prop where
  | contract : Writes ctx node refs (.ref contractName)
  | requestConfig : Writes ctx node refs (.ref requestConfigName)
  | mapped {r member t} : (r, member) ∈ refs → ctx.map node member r = .ok t →
      Writes ctx node refs t
  | promise {r member t} : (r, member) ∈ refs → ctx.map node member r = .ok t →
      Writes ctx node refs (.generic "Promise" [t])

namespace Context

variable {ctx : Context} {node : Node}

/-- What is written for references is written for more of them. -/
theorem Writes.mono {refs refs' : List (Reference × Member)} {t : TypeExpr}
    (h : Writes ctx node refs t) (hsub : ∀ p ∈ refs, p ∈ refs') : Writes ctx node refs' t := by
  cases h with
  | contract => exact .contract
  | requestConfig => exact .requestConfig
  | mapped hr ht => exact .mapped (hsub _ hr) ht
  | promise hr ht => exact .promise (hsub _ hr) ht

/-- The types of a method are those of the contract, of the parameters and of the result. -/
theorem writes_of_method {action : ActionDef} {m : Method} (h : ctx.method node action = .ok m) :
    ∀ t ∈ m.types, ctx.Writes node (Node.actionReferences action) t := by
  rw [method] at h
  obtain ⟨result, hresult, h⟩ := exists_of_bind_ok h
  obtain ⟨params, hparams, h⟩ := exists_of_bind_ok h
  obtain ⟨⟨url, bound⟩, hurl, h⟩ := exists_of_bind_ok h
  cases h
  have hreturned : (action.returns, .returned action.name) ∈ Node.actionReferences action :=
    List.mem_cons_self ..
  have hparam : ∀ p ∈ params, ctx.Writes node (Node.actionReferences action) p.type := by
    intro p hp
    obtain ⟨d, hd, hmapped⟩ := exists_of_mem_mapM hparams hp
    obtain ⟨t, ht, rfl⟩ := exists_of_map_ok hmapped
    exact .mapped (List.mem_cons_of_mem _ (List.mem_map.mpr ⟨d, hd, rfl⟩)) ht
  have hmade : url.types = [] := Route.types_url (mapError_eq_ok_iff.mp hurl)
  intro t ht
  simp only [Method.types, List.map_append, List.map_cons, List.map_nil, Option.toList_some,
    List.flatMap_cons, List.flatMap_nil, Statement.types, Expr.types, Expr.typesOfAll, hmade,
    types_payload, List.append_nil, List.nil_append, List.mem_append, List.mem_singleton,
    List.mem_map] at ht
  rcases ht with (((rfl | ⟨p, hp, rfl⟩) | rfl) | rfl) | rfl
  · exact .contract
  · exact hparam p hp
  · exact .requestConfig
  · exact .promise hreturned hresult
  · exact .mapped hreturned hresult

end Context

end Render

end ApiTypings
