import ApiTypings.Identity

/-!
# References to types

A reference is a type as it stands in a signature: a named type with its arguments, a generic
parameter of the enclosing definition, or an array or nullable form of another reference.
`display` writes it in the syntax that the reader of references accepts, and `identities` lists
the definitions it names, outermost first.
-/

namespace ApiTypings

/-- A type as it stands in a signature. -/
inductive Reference where
  /-- A named type with the arguments of a closed generic. -/
  | named (id : Identity) (args : List Reference)
  /-- A generic parameter of the enclosing definition, by position. -/
  | param (position : Nat)
  /-- A sequence of the element. -/
  | array (element : Reference)
  /-- The inner type or nothing. -/
  | nullable (inner : Reference)
  deriving Repr, Inhabited

namespace Reference

/-- A named type without arguments. -/
def simple (qualified : String) : Reference := named (Identity.ofQualified qualified 0) []

/-- A closed generic; its arity is the number of its arguments. -/
def generic (qualified : String) (args : List Reference) : Reference :=
  named (Identity.ofQualified qualified args.length) args

/-- What an action returns that returns nothing. -/
def void : Reference := simple "System.Void"

/-- The identity of the outermost named type, if there is one. -/
def identity? : Reference → Option Identity
  | named id _ => some id
  | param _ => none
  | array element => element.identity?
  | nullable inner => inner.identity?

mutual

/-- Every identity that the reference names, outermost first. -/
def identities : Reference → List Identity
  | named id args => id :: identitiesOfAll args
  | param _ => []
  | array element => element.identities
  | nullable inner => inner.identities

/-- The identities of several references, one reference after the other. -/
def identitiesOfAll : List Reference → List Identity
  | [] => []
  | r :: rs => r.identities ++ identitiesOfAll rs

end

mutual

/-- The written form: arguments in angle brackets, then `[]` and `?` after what they apply to. -/
def display : Reference → String
  | named id args =>
    let inside := displayAll args
    if inside.isEmpty then id.qualifiedName
    else id.qualifiedName ++ "<" ++ Text.join ", " inside ++ ">"
  | param position => "!" ++ toString position
  | array element => element.display ++ "[]"
  | nullable inner => inner.display ++ "?"

/-- The written forms of several references. -/
def displayAll : List Reference → List String
  | [] => []
  | r :: rs => r.display :: displayAll rs

end

mutual

/-- The number of references in a reference, itself included. -/
def size : Reference → Nat
  | named _ args => 1 + sizeOfAll args
  | param _ => 1
  | array element => 1 + element.size
  | nullable inner => 1 + inner.size

/-- One more than the size of each of several references, summed. -/
def sizeOfAll : List Reference → Nat
  | [] => 0
  | r :: rs => 1 + r.size + sizeOfAll rs

end

/-- Induction over references, with a hypothesis for each argument of a named type. -/
@[elab_as_elim]
theorem induction {motive : Reference → Prop}
    (named : ∀ id args, (∀ r ∈ args, motive r) → motive (named id args))
    (param : ∀ position, motive (param position))
    (array : ∀ element, motive element → motive (array element))
    (nullable : ∀ inner, motive inner → motive (nullable inner)) (r : Reference) : motive r :=
  @Reference.rec motive (fun args => ∀ r ∈ args, motive r) named param array nullable nofun
    (fun _ _ ih ihs => List.forall_mem_cons.mpr ⟨ih, ihs⟩) r

/-- Several references name what each of them does. -/
theorem identitiesOfAll_eq (rs : List Reference) :
    identitiesOfAll rs = rs.flatMap identities := by
  induction rs with
  | nil => rfl
  | cons r rs ih => simp [identitiesOfAll, ih]

/-- The outermost identity is the first one. -/
theorem identity?_eq_head? (r : Reference) (id : Identity) (h : r.identity? = some id) :
    r.identities.head? = some id := by
  induction r using identity?.induct with
  | case1 id' args => simpa [identity?, identities] using h
  | case2 => simp [identity?] at h
  | case3 element ih => exact ih h
  | case4 inner ih => exact ih h

end Reference

end ApiTypings
