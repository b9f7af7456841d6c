import ApiTypings.Proofs.Render.Induction
import ApiTypings.Render.Writer

/-!
# Names that a mapped reference writes

The names in a mapped type expression, and for each of them what it stands for: a discovered
type, a generic parameter, or the date type of the language. What is mentioned follows the
reference part by part, as the mapping does, and its names are exactly those of the mapped
expression, in order.
-/

namespace ApiTypings

namespace TypeScript.TypeExpr

mutual

/-- The names in a type expression, in the order in which they are written. -/
def names : TypeExpr → List String
  | primitive _ => []
  | array element => element.names
  | union alternatives => namesOfAll alternatives
  | record key value => key.names ++ value.names
  | ref name => [name]
  | generic name args => name :: namesOfAll args

/-- The names in several type expressions, one after the other. -/
def namesOfAll : List TypeExpr → List String
  | [] => []
  | t :: ts => t.names ++ namesOfAll ts

end

/-- An array names what its element does. -/
@[simp] theorem names_array (element : TypeExpr) : (array element).names = element.names := rfl

/-- A record names what its values do. -/
@[simp] theorem names_stringRecord (value : TypeExpr) :
    (stringRecord value).names = value.names := rfl

/-- Null names nothing. -/
@[simp] theorem names_orNull (inner : TypeExpr) : inner.orNull.names = inner.names := by
  simp [orNull, names, namesOfAll]

/-- A type with arguments has its own name before those of the arguments. -/
@[simp] theorem names_ofName (name : String) (args : List TypeExpr) :
    (ofName name args).names = name :: namesOfAll args := by
  cases args <;> rfl

end TypeScript.TypeExpr

namespace Render

/-- What a name in a mapped reference stands for. -/
inductive Mention where
  /-- A discovered type. -/
  | type (id : Identity)
  /-- A generic parameter of the type that contains the reference. -/
  | parameter (name : String)
  /-- The date type of the language. -/
  | date
  deriving DecidableEq, Repr

/-- The name that is written. -/
def Mention.text : Mention → String
  | type id => id.declaredName
  | parameter name => name
  | date => "Date"

namespace Context

mutual

/-- What the names of a mapped reference stand for, in the order in which they are written. -/
def mentions (ctx : Context) (node : Node) : Reference → List Mention
  | .param position => node.genericParameters[position]?.toList.map .parameter
  | .array element => mentions ctx node element
  | .nullable inner => mentions ctx node inner
  | .named id args =>
    match ctx.graph.node? id with
    | some _ => .type id :: mentionsOfAll ctx node args
    | none =>
      match id.builtinShape? with
      | some .date => [.date]
      | some .collection | some .nullable | some .task => mentionsAt ctx node args 0
      | some .dictionary => mentionsAt ctx node args 1
      | _ => []

/-- What the names of several mapped references stand for. -/
def mentionsOfAll (ctx : Context) (node : Node) : List Reference → List Mention
  | [] => []
  | r :: rs => mentions ctx node r ++ mentionsOfAll ctx node rs

/-- What the names of the reference at a position stand for, if there is one. -/
def mentionsAt (ctx : Context) (node : Node) : List Reference → Nat → List Mention
  | [], _ => []
  | r :: _, 0 => mentions ctx node r
  | _ :: rs, position + 1 => mentionsAt ctx node rs position

end

variable {ctx : Context} {node : Node} {member : Member}

/-- Several references mention what each of them does. -/
theorem mentionsOfAll_eq (rs : List Reference) :
    mentionsOfAll ctx node rs = rs.flatMap (ctx.mentions node) := by
  induction rs with
  | nil => rfl
  | cons r rs ih => rw [mentionsOfAll, ih, List.flatMap_cons]

/-- What is mentioned at a position is what the argument there mentions. -/
theorem mentionsAt_eq (rs : List Reference) (position : Nat) :
    mentionsAt ctx node rs position = rs[position]?.toList.flatMap (ctx.mentions node) := by
  induction rs generalizing position with
  | nil => rfl
  | cons r rs ih =>
    cases position with
    | zero => simp [mentionsAt]
    | succ position => simp [mentionsAt, ih]

private theorem names_nullable (ctx : Context) (inner : TypeScript.TypeExpr) :
    (ctx.nullable inner).names = inner.names := by
  rw [nullable]
  split
  · rw [TypeScript.TypeExpr.names_orNull]
  · rfl

/-- A library type mentions what the argument that it is made from does; the date type is a mention
of its own. -/
theorem mentions_library {id : Identity} {args : List Reference} {shape : BuiltinShape}
    (hn : ctx.graph.node? id = none) (hs : id.builtinShape? = some shape) :
    ctx.mentions node (.named id args) =
      if shape = .date then [.date]
      else shape.argument?.toList.flatMap (mentionsAt ctx node args) := by
  rw [mentions, hn, hs]
  cases shape <;> simp [BuiltinShape.argument?]

/-- A library type that is made from an argument mentions what the argument does. -/
theorem mentions_argument {id : Identity} {args : List Reference} {shape : BuiltinShape}
    {position : Nat} {r : Reference} (hn : ctx.graph.node? id = none)
    (hs : id.builtinShape? = some shape) (hposition : shape.argument? = some position)
    (hr : args[position]? = some r) :
    ctx.mentions node (.named id args) = ctx.mentions node r := by
  have hdate : shape ≠ .date := by
    rintro rfl
    cases hposition
  rw [mentions_library hn hs, if_neg hdate, hposition]
  simp [mentionsAt_eq, hr]

/-- A library type names what its argument does. -/
theorem names_wrap (ctx : Context) (shape : BuiltinShape) (argument : TypeScript.TypeExpr) :
    (ctx.wrap shape argument).names = argument.names := by
  cases shape <;> first | rfl | exact names_nullable ctx argument

private theorem namesOfAll_of_forall₂ {args : List Reference} {ts : List TypeScript.TypeExpr}
    (h : List.Forall₂ (fun r t => t.names = (ctx.mentions node r).map Mention.text) args ts) :
    TypeScript.TypeExpr.namesOfAll ts = (mentionsOfAll ctx node args).map Mention.text := by
  induction h with
  | nil => rfl
  | cons hnames _ ih =>
    rw [TypeScript.TypeExpr.namesOfAll, mentionsOfAll, List.map_append, hnames, ih]

/-- The names of a mapped reference are those of what it mentions. -/
def Names (ctx : Context) (node : Node) (member : Member) (r : Reference) : Prop :=
  ∀ t, ctx.map node member r = .ok t → t.names = (ctx.mentions node r).map Mention.text

/-- The names in a mapped reference are exactly those of what it mentions, in order. -/
theorem names_map (ctx : Context) (node : Node) (member : Member) (r : Reference) :
    Names ctx node member r := by
  intro t h
  refine map_induction (motive := fun r t => t.names = (ctx.mentions node r).map Mention.text)
    ?param ?array ?nullable ?type ?plain ?done ?argument h
  case param =>
    intro position name hp
    simp [mentions, hp, TypeScript.TypeExpr.names, Mention.text]
  case array => exact fun _ _ ih => ih
  case nullable =>
    intro inner t ih
    rw [names_nullable, ih, mentions]
  case type =>
    intro id args target ts hn _ ih
    rw [TypeScript.TypeExpr.names_ofName, namesOfAll_of_forall₂ ih, mentions, hn]
    rfl
  case plain =>
    intro id args shape t hn hs ht
    rw [mentions_library hn hs]
    cases shape <;> cases ht <;> rfl
  case done =>
    intro id hn hs
    rw [mentions_library hn hs]
    rfl
  case argument =>
    intro id args shape position r t hn hs hposition hr ih
    rw [mentions_argument hn hs hposition hr, names_wrap, ih]

/-- A parameter that is mentioned is one of the node. -/
theorem mem_genericParameters_of_mem_mentions {r : Reference} {t : TypeScript.TypeExpr}
    {name : String} (h : ctx.map node member r = .ok t)
    (hm : .parameter name ∈ ctx.mentions node r) : name ∈ node.genericParameters := by
  refine map_induction
    (motive := fun r _ => .parameter name ∈ ctx.mentions node r → name ∈ node.genericParameters)
    ?param ?array ?nullable ?type ?plain ?done ?argument h hm
  case param =>
    intro position name' hp hm
    simp only [mentions, hp, Option.toList_some, List.map_cons, List.map_nil, List.mem_singleton,
      Mention.parameter.injEq] at hm
    exact hm ▸ List.mem_of_getElem? hp
  case array => exact fun _ _ ih => ih
  case nullable => exact fun _ _ ih => ih
  case type =>
    intro id args target ts hn _ ih hm
    have hargs := ((List.forall₂_and_left args ts).mp (ih.imp fun _ _ h => ⟨h, trivial⟩)).1
    rw [mentions, hn, mentionsOfAll_eq, List.mem_cons, List.mem_flatMap] at hm
    rcases hm with heq | ⟨r, hr, hm⟩
    · cases heq
    · exact hargs r hr hm
  case plain =>
    intro id args shape t hn hs ht hm
    rw [mentions_library hn hs] at hm
    cases shape <;> cases ht <;> simp [BuiltinShape.argument?] at hm
  case done =>
    intro id hn hs hm
    rw [mentions_library hn hs] at hm
    cases hm
  case argument =>
    intro id args shape position r t hn hs hposition hr ih hm
    rw [mentions_argument hn hs hposition hr] at hm
    exact ih hm

/-- A type that is mentioned is discovered and occurs in the reference. -/
theorem mem_identities_of_mem_mentions {r : Reference} {id : Identity}
    (h : .type id ∈ ctx.mentions node r) :
    id ∈ r.identities ∧ ctx.graph.contains id = true := by
  induction r using Reference.induction with
  | param position =>
    rw [mentions] at h
    obtain ⟨name, _, hname⟩ := List.mem_map.mp h
    cases hname
  | array element ih => exact ih h
  | nullable inner ih => exact ih h
  | named id' args ih =>
    have hargs : ∀ r ∈ args, .type id ∈ ctx.mentions node r →
        id ∈ (Reference.named id' args).identities ∧ ctx.graph.contains id = true := by
      intro r hr hm
      obtain ⟨hid, hc⟩ := ih r hr hm
      rw [Reference.identities, Reference.identitiesOfAll_eq]
      exact ⟨List.mem_cons_of_mem _ (List.mem_flatMap.mpr ⟨r, hr, hid⟩), hc⟩
    have hat : ∀ position, .type id ∈ mentionsAt ctx node args position →
        id ∈ (Reference.named id' args).identities ∧ ctx.graph.contains id = true := by
      intro position hm
      rw [mentionsAt_eq] at hm
      obtain ⟨r, hr, hm⟩ := List.mem_flatMap.mp hm
      exact hargs r (List.mem_of_getElem? (Option.mem_toList.mp hr)) hm
    rw [mentions] at h
    cases hn : ctx.graph.node? id' with
    | some target =>
      rw [hn] at h
      rcases List.mem_cons.mp h with heq | h
      · cases heq
        exact ⟨List.mem_cons_self .., by rw [Graph.contains, hn]; rfl⟩
      · rw [mentionsOfAll_eq] at h
        obtain ⟨r, hr, hm⟩ := List.mem_flatMap.mp h
        exact hargs r hr hm
    | none =>
      rw [hn] at h
      cases hs : id'.builtinShape? with
      | none =>
        rw [hs] at h
        cases h
      | some shape =>
        rw [hs] at h
        cases shape with
        | number | string | boolean | unknown | void => cases h
        | date =>
          have hdate := List.mem_singleton.mp h
          cases hdate
        | collection | nullable | task => exact hat 0 h
        | dictionary => exact hat 1 h

end Context

end Render

end ApiTypings
