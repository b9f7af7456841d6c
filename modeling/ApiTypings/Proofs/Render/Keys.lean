import ApiTypings.Proofs.Render.Mentions
import ApiTypings.Proofs.Render.Refusal

/-!
# Names in the keys of dictionaries

A dictionary is written as a record whose keys are strings, whatever the first of its arguments is.
An identity that a reference names is therefore named by a part that is written, or in the key of
a dictionary among these parts; and the discovered types that are written for the reference are
exactly those that its parts name.
-/

namespace ApiTypings

namespace Reference

/-- A part of the reference names the identity, so that it is written if it is discovered. -/
def NamesOutsideKeys (r : Reference) (x : Identity) : Prop :=
  ∃ args, Part (.named x args) r

/-- The key of a dictionary among the parts of the reference names the identity. -/
def NamesInKeys (r : Reference) (x : Identity) : Prop :=
  ∃ id key rest, Part (.named id (key :: rest)) r ∧ IsKey id 0 ∧ x ∈ key.identities

variable {x : Identity}

/-- A parameter names nothing outside keys. -/
@[simp] theorem namesOutsideKeys_param (position : Nat) :
    ¬ NamesOutsideKeys (param position) x := by
  simp [NamesOutsideKeys, part_param_iff]

/-- A parameter names nothing in keys. -/
@[simp] theorem namesInKeys_param (position : Nat) : ¬ NamesInKeys (param position) x := by
  simp [NamesInKeys, part_param_iff]

/-- An array names outside keys what its element does. -/
@[simp] theorem namesOutsideKeys_array (element : Reference) :
    NamesOutsideKeys (array element) x ↔ NamesOutsideKeys element x := by
  simp [NamesOutsideKeys, part_array_iff]

/-- An array names in keys what its element does. -/
@[simp] theorem namesInKeys_array (element : Reference) :
    NamesInKeys (array element) x ↔ NamesInKeys element x := by
  simp [NamesInKeys, part_array_iff]

/-- A nullable reference names outside keys what it holds does. -/
@[simp] theorem namesOutsideKeys_nullable (inner : Reference) :
    NamesOutsideKeys (nullable inner) x ↔ NamesOutsideKeys inner x := by
  simp [NamesOutsideKeys, part_nullable_iff]

/-- A nullable reference names in keys what it holds does. -/
@[simp] theorem namesInKeys_nullable (inner : Reference) :
    NamesInKeys (nullable inner) x ↔ NamesInKeys inner x := by
  simp [NamesInKeys, part_nullable_iff]

/-- A named type names itself, and outside keys what its arguments name there. -/
theorem namesOutsideKeys_named {id : Identity} {args : List Reference} :
    NamesOutsideKeys (named id args) x ↔ x = id ∨
      ∃ i r, args[i]? = some r ∧ ¬ IsKey id i ∧ NamesOutsideKeys r x := by
  constructor
  · rintro ⟨args', h⟩
    rcases part_named_iff.mp h with heq | ⟨i, r, hr, hkey, h⟩
    · cases heq
      exact .inl rfl
    · exact .inr ⟨i, r, hr, hkey, args', h⟩
  · rintro (rfl | ⟨i, r, hr, hkey, args', h⟩)
    · exact ⟨args, .whole⟩
    · exact ⟨args', .argument hr hkey h⟩

/-- A type without keys names itself, and what any of its arguments names outside keys. -/
theorem namesOutsideKeys_named_of_not_isKey {id : Identity} {args : List Reference}
    (hkey : ∀ i, ¬ IsKey id i) :
    NamesOutsideKeys (named id args) x ↔ x = id ∨ ∃ r ∈ args, NamesOutsideKeys r x := by
  rw [namesOutsideKeys_named]
  refine or_congr_right ⟨?_, ?_⟩
  · rintro ⟨i, r, hi, _, hnames⟩
    exact ⟨r, List.mem_of_getElem? hi, hnames⟩
  · rintro ⟨r, hmem, hnames⟩
    obtain ⟨i, hi⟩ := List.mem_iff_getElem?.mp hmem
    exact ⟨i, r, hi, hkey i, hnames⟩

private theorem namesOutsideKeys_named_nil {id : Identity} :
    NamesOutsideKeys (named id []) x ↔ x = id := by
  simp [namesOutsideKeys_named]

/-- A library type that is made from an argument names itself, and outside keys what that argument
names there. -/
theorem namesOutsideKeys_named_of_argument {id : Identity} {args : List Reference}
    {shape : BuiltinShape} {position : Nat} {r : Reference} (hr : (named id args).WellFormed)
    (hs : id.builtinShape? = some shape) (hposition : shape.argument? = some position)
    (hget : args[position]? = some r) :
    NamesOutsideKeys (named id args) x ↔ x = id ∨ NamesOutsideKeys r x := by
  rw [namesOutsideKeys_named]
  refine or_congr_right ⟨?_, fun hnames => ?_⟩
  · rintro ⟨i, a, ha, hkey, hnames⟩
    obtain rfl := (Render.Context.not_isKey_iff hr hs hposition ha).mp hkey
    obtain rfl := Option.some.inj (hget.symm.trans ha)
    exact hnames
  · exact ⟨position, r, hget, (Render.Context.not_isKey_iff hr hs hposition hget).mpr rfl, hnames⟩

/-- A dictionary names in keys what its own key names, and every named type what its other
arguments name there. -/
theorem namesInKeys_named {id : Identity} {args : List Reference} :
    NamesInKeys (named id args) x ↔
      ∃ i r, args[i]? = some r ∧
        ((IsKey id i ∧ x ∈ r.identities) ∨ (¬ IsKey id i ∧ NamesInKeys r x)) := by
  constructor
  · rintro ⟨d, key, rest, h, hkey, hx⟩
    rcases part_named_iff.mp h with heq | ⟨i, r, hr, hne, h⟩
    · cases heq
      exact ⟨0, key, rfl, .inl ⟨hkey, hx⟩⟩
    · exact ⟨i, r, hr, .inr ⟨hne, d, key, rest, h, hkey, hx⟩⟩
  · rintro ⟨i, r, hr, ⟨hkey, hx⟩ | ⟨hne, d, key, rest, h, hkey, hx⟩⟩
    · obtain rfl : i = 0 := hkey.2.2
      obtain ⟨rest, rfl⟩ : ∃ rest, args = r :: rest := by
        cases args with
        | nil => cases hr
        | cons key rest =>
          cases hr
          exact ⟨rest, rfl⟩
      exact ⟨id, r, rest, .whole, hkey, hx⟩
    · exact ⟨d, key, rest, .argument hr hne h, hkey, hx⟩

/-- What a reference names is named outside keys or in one. -/
theorem mem_identities_iff (r : Reference) :
    x ∈ r.identities ↔ r.NamesOutsideKeys x ∨ r.NamesInKeys x := by
  induction r using Reference.induction with
  | param position => simp [identities]
  | array element ih => simp [identities, ih]
  | nullable inner ih => simp [identities, ih]
  | named id args ih =>
    rw [identities, identitiesOfAll_eq, List.mem_cons, List.mem_flatMap, namesOutsideKeys_named,
      namesInKeys_named, or_assoc]
    refine or_congr_right ⟨?_, ?_⟩
    · rintro ⟨r, hr, hx⟩
      obtain ⟨i, hi⟩ := List.mem_iff_getElem?.mp hr
      by_cases hkey : IsKey id i
      · exact .inr ⟨i, r, hi, .inl ⟨hkey, hx⟩⟩
      · rcases (ih r hr).mp hx with hx | hx
        · exact .inl ⟨i, r, hi, hkey, hx⟩
        · exact .inr ⟨i, r, hi, .inr ⟨hkey, hx⟩⟩
    · rintro (⟨i, r, hi, _, hx⟩ | ⟨i, r, hi, ⟨_, hx⟩ | ⟨_, hx⟩⟩)
      · exact ⟨r, List.mem_of_getElem? hi, (ih r (List.mem_of_getElem? hi)).mpr (.inl hx)⟩
      · exact ⟨r, List.mem_of_getElem? hi, hx⟩
      · exact ⟨r, List.mem_of_getElem? hi, (ih r (List.mem_of_getElem? hi)).mpr (.inr hx)⟩

end Reference

namespace Render.Context

variable {ctx : Context} {node : Node} {member : Member}

/-- A type that is not discovered is none of the discovered ones. -/
theorem ne_of_contains {id x : Identity} (hn : ctx.graph.node? id = none)
    (hx : ctx.graph.contains x = true) : x ≠ id := by
  rintro rfl
  rw [Graph.contains, hn] at hx
  cases hx

/-- A library type that is written without its arguments mentions no discovered type. -/
theorem type_notMem_mentions_plain {id x : Identity} {shape : BuiltinShape}
    (hn : ctx.graph.node? id = none) (hs : id.builtinShape? = some shape) :
    .type x ∉ ctx.mentions node (.named id []) := by
  rw [mentions_library hn hs]
  cases shape <;> simp [BuiltinShape.argument?, mentionsAt_eq]

/-- A discovered type mentions itself and what its arguments mention. -/
theorem type_mem_mentions_discovered {id x : Identity} {args : List Reference} {target : Node}
    (hn : ctx.graph.node? id = some target) :
    .type x ∈ ctx.mentions node (.named id args) ↔
      x = id ∨ ∃ r ∈ args, .type x ∈ ctx.mentions node r := by
  rw [mentions, hn, mentionsOfAll_eq, List.mem_cons, List.mem_flatMap, Mention.type.injEq]

/-- A discovered type is written for a reference when a part of the reference names it outside
keys. -/
theorem type_mem_mentions_iff (hsys : ∀ id, id.isSystem = true → ctx.graph.node? id = none)
    {r : Reference} {t : TypeScript.TypeExpr} (hr : r.WellFormed)
    (h : ctx.map node member r = .ok t) (x : Identity) :
    .type x ∈ ctx.mentions node r ↔ ctx.graph.contains x = true ∧ r.NamesOutsideKeys x := by
  refine map_induction (motive := fun r _ => r.WellFormed →
    (.type x ∈ ctx.mentions node r ↔ ctx.graph.contains x = true ∧ r.NamesOutsideKeys x))
    ?param ?array ?nullable ?type ?plain ?done ?argument h hr
  case param =>
    intro position name _ _
    simp [mentions]
  case array =>
    intro element _ ih hr
    rw [mentions, Reference.namesOutsideKeys_array]
    exact ih hr
  case nullable =>
    intro inner _ ih hr
    rw [mentions, Reference.namesOutsideKeys_nullable]
    exact ih hr
  case type =>
    intro id args target ts hn _ ih hr
    have hkey : ∀ i, ¬ Reference.IsKey id i := by
      rintro i ⟨hs, _⟩
      rw [hsys id hs] at hn
      cases hn
    have hargs := ((List.forall₂_and_left args ts).mp (ih.imp fun _ _ h => ⟨h, trivial⟩)).1
    have hall := Reference.allWellFormed_iff.mp hr.2.2
    have hcontains : ctx.graph.contains id = true := by rw [Graph.contains, hn]; rfl
    rw [type_mem_mentions_discovered hn, Reference.namesOutsideKeys_named_of_not_isKey hkey]
    constructor
    · rintro (rfl | ⟨r, hmem, hm⟩)
      · exact ⟨hcontains, .inl rfl⟩
      · obtain ⟨hx, hnames⟩ := (hargs r hmem (hall r hmem)).mp hm
        exact ⟨hx, .inr ⟨r, hmem, hnames⟩⟩
    · rintro ⟨hx, rfl | ⟨r, hmem, hnames⟩⟩
      · exact .inl rfl
      · exact .inr ⟨r, hmem, (hargs r hmem (hall r hmem)).mpr ⟨hx, hnames⟩⟩
  case plain =>
    intro id args shape t hn hs ht hr
    obtain rfl := args_eq_nil_of_plain hr hs ht
    rw [Reference.namesOutsideKeys_named_nil, iff_false_left (type_notMem_mentions_plain hn hs)]
    rintro ⟨hx, heq⟩
    exact ne_of_contains hn hx heq
  case done =>
    intro id hn hs _
    rw [Reference.namesOutsideKeys_named_nil, iff_false_left (type_notMem_mentions_plain hn hs)]
    rintro ⟨hx, heq⟩
    exact ne_of_contains hn hx heq
  case argument =>
    intro id args shape position r t hn hs hposition hget ih hr
    have hmem := List.mem_of_getElem? hget
    rw [mentions_argument hn hs hposition hget, ih (Reference.allWellFormed_iff.mp hr.2.2 r hmem),
      Reference.namesOutsideKeys_named_of_argument hr hs hposition hget]
    exact and_congr_right fun hx => (or_iff_right (ne_of_contains hn hx)).symm

end Render.Context

end ApiTypings
