import ApiTypings.Catalog.Description
import ApiTypings.Proofs.Json.Reading
import ApiTypings.Proofs.Reference.RoundTrip

/-!
# Decoding finds what a document describes

A decoder reads a form if it decodes every value that shows something to just that. A record
follows a list of fields if the state after any of them depends on their names alone, and then it
reads the form with these fields, whichever way it is written. Every record of a document follows
its fields, so the catalog of a document is the catalog of the definitions that it describes.
-/

namespace ApiTypings.Document

open Json (Value)

variable {α β σ : Type}

/-- A decoder gives what a value shows. -/
def Decodes (decoder : Decoder α) (form : Form α) : Prop :=
  ∀ a v, form a v → decoder v = .ok a

/-! ## Forms of single values -/

private theorem decodes_string : Decodes string textForm := by
  rintro text v rfl
  rfl

private theorem decodes_boolean : Decodes boolean truthForm := by
  rintro b v rfl
  rfl

private theorem decodes_reference : Decodes reference referenceForm := by
  rintro r v ⟨text, rfl, hr⟩
  rw [reference, string]
  change (Reference.parse text).mapError Fault.reference = .ok r
  rw [hr]
  rfl

/-- A list is decoded from the forms of its items. -/
theorem Decodes.sequence {item : Decoder α} {form : Form α} (h : Decodes item form) :
    Decodes (sequence item) (listForm form) := by
  rintro as v ⟨items, rfl, hitems⟩
  change items.mapM item = .ok as
  induction hitems with
  | nil => rfl
  | cons hitem _ ih =>
    rw [List.mapM_cons, h _ _ hitem, ih]
    rfl

/-- What may be missing is decoded from its form or from null. -/
theorem Decodes.optional {inner : Decoder α} {form : Form α} (h : Decodes inner form)
    (hnull : ∀ a, inner .null ≠ .ok a) : Decodes (optional inner) (optionForm form) := by
  intro a v hv
  cases a with
  | none =>
    cases hv
    rfl
  | some a =>
    have hinner := h a v hv
    have hne : v ≠ .null := by
      rintro rfl
      exact hnull a hinner
    rw [Document.optional]
    · rw [hinner]
      rfl
    · exact hne

/-- A variant is found by its name when names differ. -/
theorem Decodes.variant {all : List α} {name : α → String}
    (h : ∀ a, all.find? (name · = name a) = some a) :
    Decodes (variant all name) (variantForm name) := by
  have hvariant : ∀ a, variantOf all name (name a) = .ok a := by
    intro a
    rw [variantOf, h a]
  rintro a v (rfl | rfl)
  · exact hvariant a
  · rw [Document.variant, hvariant a]
    rfl

/-! ## Records -/

/-- What a record keeps of a field once the fields `met` have been met. -/
def slot (met : List String) (name : String) (b : β) : Option β :=
  if name ∈ met then some b else none

private theorem once_slot {met : List String} {name : String} {decoder : Decoder β} {form : Form β}
    {b : β} {v : Value} (h : Decodes decoder form) (hmet : name ∉ met) (hv : form b v) :
    once name decoder (slot met name b) v = .ok (some b) := by
  rw [slot, if_neg hmet, once, h b v hv]
  rfl

private theorem required_slot {met : List String} {name : String} {b : β} (h : name ∈ met) :
    required name (slot met name b) = .ok b := by
  rw [slot, if_pos h, required]

private theorem getD_slot {met : List String} {name : String} {b default : β}
    (h : name ∉ met → b = default) : (slot met name b).getD default = b := by
  by_cases hmet : name ∈ met
  · rw [slot, if_pos hmet, Option.getD_some]
  · rw [slot, if_neg hmet, Option.getD_none, h hmet]

/-- An entry of a record takes a field that has not been met. -/
def Takes (state : α → List String → σ) (a : α)
    (entry : String × (σ → Value → Except Fault σ)) (f : Field α) : Prop :=
  entry.1 = f.name ∧ ∀ met v, f.name ∉ met → f.form a v →
    entry.2 (state a met) v = .ok (state a (f.name :: met))

/-- A record takes the fields and finds an `a` after those of them that are not left out; its
state in between depends on the names of those that it has met. -/
structure Record.Follows (r : Record σ α) (fields : List (Field α))
    (state : α → List String → σ) : Prop where
  distinct : (fields.map Field.name).Nodup
  start : ∀ a, r.start = state a []
  takes : ∀ a, List.Forall₂ (Takes state a) r.fields fields
  finish : ∀ a met, (∀ f ∈ fields, f.name ∉ met → f.IsDefault a) → r.finish (state a met) = .ok a
  only : r.only = none

/-- A name is that of an entry and of a field, or of neither. -/
theorem lookup_of_takes {state : α → List String → σ} {a : α}
    {entries : List (String × (σ → Value → Except Fault σ))} {fields : List (Field α)}
    (h : List.Forall₂ (Takes state a) entries fields) (name : String) :
    (entries.lookup name = none ∧ ∀ f ∈ fields, f.name ≠ name) ∨
    ∃ take, ∃ f ∈ fields, entries.lookup name = some take ∧ Takes state a (name, take) f := by
  induction h with
  | nil => exact .inl ⟨rfl, by simp⟩
  | @cons entry f entries fields htakes _ ih =>
    obtain ⟨other, take⟩ := entry
    by_cases hname : name = other
    · subst hname
      exact .inr ⟨take, f, List.mem_cons_self .., by simp, htakes⟩
    · rw [List.lookup_cons, beq_eq_false_iff_ne.mpr hname]
      obtain ⟨hnone, hfields⟩ | ⟨take, g, hg, hlookup, hg'⟩ := ih
      · refine .inl ⟨hnone, List.forall_mem_cons.mpr ⟨?_, hfields⟩⟩
        exact fun h => hname (htakes.1.trans h).symm
      · exact .inr ⟨take, g, List.mem_cons_of_mem _ hg, hlookup, hg'⟩

/-! ### Objects -/

private theorem valuesOf_cons_self (name : String) (v : Value)
    (members : List (Option String × Value)) :
    valuesOf name ((some name, v) :: members) = v :: valuesOf name members := by
  simp [valuesOf]

private theorem valuesOf_cons_of_ne {name other : String} (h : other ≠ name) (v : Value)
    (members : List (Option String × Value)) :
    valuesOf name ((some other, v) :: members) = valuesOf name members := by
  simp [valuesOf, h]

/-- Every field will be shown by the members, or it will not and has been met or is left out. -/
def Pending (fields : List (Field α)) (a : α) (met : List String)
    (members : List (Option String × Value)) : Prop :=
  ∀ f ∈ fields, (f.name ∉ met ∧ ∃ v, valuesOf f.name members = [v] ∧ f.form a v) ∨
    (valuesOf f.name members = [] ∧ (f.name ∉ met → f.IsDefault a))

/-- A member with the name of a field shows it. -/
theorem Pending.form {fields : List (Field α)} {a : α} {met : List String} {v : Value}
    {members : List (Option String × Value)} {f : Field α} (hf : f ∈ fields)
    (h : Pending fields a met ((some f.name, v) :: members)) :
    f.name ∉ met ∧ f.form a v ∧ Pending fields a (f.name :: met) members := by
  have hvalues := h f hf
  rw [valuesOf_cons_self] at hvalues
  obtain ⟨hmet, v', hsingle, hform⟩ | ⟨hempty, _⟩ := hvalues
  · obtain ⟨rfl, hrest⟩ := List.cons.inj hsingle
    refine ⟨hmet, hform, fun g hg => ?_⟩
    by_cases hname : g.name = f.name
    · rw [hname]
      exact .inr ⟨hrest, fun hnot => absurd (List.mem_cons_self ..) hnot⟩
    · have hother := h g hg
      rw [valuesOf_cons_of_ne (Ne.symm hname)] at hother
      rw [List.mem_cons, not_or]
      obtain ⟨hgmet, hshown⟩ | ⟨hnone, hdefault⟩ := hother
      · exact .inl ⟨⟨hname, hgmet⟩, hshown⟩
      · exact .inr ⟨hnone, fun hnot => hdefault hnot.2⟩
  · cases hempty

/-- A member with another name changes nothing. -/
theorem Pending.skip {fields : List (Field α)} {a : α} {met : List String} {name : String}
    {v : Value} {members : List (Option String × Value)} (hname : ∀ f ∈ fields, f.name ≠ name)
    (h : Pending fields a met ((some name, v) :: members)) : Pending fields a met members := by
  intro f hf
  rw [← valuesOf_cons_of_ne (Ne.symm (hname f hf)) v members]
  exact h f hf

variable {r : Record σ α} {fields : List (Field α)} {state : α → List String → σ}

/-- After the members of an object only fields with a default have not been met. -/
theorem Record.Follows.foldlM_takeField (h : r.Follows fields state) {a : α} {met : List String}
    {members : List (Option String × Value)} (htexts : ∀ m ∈ members, m.1 ≠ none)
    (hpending : Pending fields a met members) :
    ∃ met', members.foldlM r.takeField (state a met) = .ok (state a met') ∧
      ∀ f ∈ fields, f.name ∉ met' → f.IsDefault a := by
  induction members generalizing met with
  | nil =>
    refine ⟨met, rfl, fun f hf hmet => ?_⟩
    obtain ⟨_, v, hsingle, _⟩ | ⟨_, hdefault⟩ := hpending f hf
    · cases hsingle
    · exact hdefault hmet
  | cons m members ih =>
    obtain ⟨name | name, v⟩ := m
    · exact absurd rfl (htexts _ (List.mem_cons_self ..))
    · have htexts' : ∀ m ∈ members, m.1 ≠ none := fun m hm =>
        htexts m (List.mem_cons_of_mem _ hm)
      rw [List.foldlM_cons, takeField]
      obtain ⟨hnone, hother⟩ | ⟨take, f, hf, hlookup, htake⟩ := lookup_of_takes (h.takes a) name
      · rw [hnone, h.only]
        exact ih htexts' (hpending.skip hother)
      · obtain ⟨hname, htake⟩ := htake
        change name = f.name at hname
        subst hname
        obtain ⟨hmet, hform, hpending'⟩ := hpending.form hf
        rw [hlookup]
        change ∃ met', (take (state a met) v).bind _ = _ ∧ _
        rw [show take (state a met) v = _ from htake met v hmet hform]
        exact ih htexts' hpending'

/-! ### Arrays -/

/-- After the items of an array the fields that they show have been met. -/
theorem takeItems_of_takes {a : α} {met : List String}
    {entries : List (String × (σ → Value → Except Fault σ))} {given omitted : List (Field α)}
    {items : List Value} (htakes : List.Forall₂ (Takes state a) entries (given ++ omitted))
    (hdistinct : (given.map Field.name).Nodup) (hmet : ∀ f ∈ given, f.name ∉ met)
    (hshown : List.Forall₂ (fun f v => f.form a v) given items) :
    ∃ met', Record.takeItems (state a met) entries items = .ok (state a met') ∧
      met ⊆ met' ∧ ∀ f ∈ given, f.name ∈ met' := by
  induction hshown generalizing met entries with
  | nil => exact ⟨met, by simp [Record.takeItems], List.Subset.refl _, by simp⟩
  | @cons f v given items hform _ ih =>
    cases htakes with
    | @cons entry _ entries _ htake htakes =>
      obtain ⟨name, take⟩ := entry
      obtain ⟨hmetf, hmet⟩ := List.forall_mem_cons.mp hmet
      obtain ⟨hfresh, hdistinct⟩ := List.nodup_cons.mp hdistinct
      have hmet' : ∀ g ∈ given, g.name ∉ f.name :: met := by
        intro g hg hname
        obtain hname | hname := List.mem_cons.mp hname
        · exact hfresh (hname ▸ List.mem_map_of_mem hg)
        · exact hmet g hg hname
      obtain ⟨met', hitems, hsubset, hgiven⟩ := ih htakes hdistinct hmet'
      refine ⟨met', ?_, fun n hn => hsubset (List.mem_cons_of_mem _ hn),
        List.forall_mem_cons.mpr ⟨hsubset (List.mem_cons_self ..), hgiven⟩⟩
      change (take (state a met) v).bind _ = _
      rw [show take (state a met) v = _ from htake.2 met v hmetf hform]
      exact hitems

/-- A record that follows fields reads their form. -/
theorem Record.Follows.decodes (state : α → List String → σ) (h : r.Follows fields state) :
    Decodes r.decode (RecordForm fields) := by
  intro a v hv
  cases hv with
  | object htexts hshown =>
    have hpending : Pending fields a [] _ := fun f hf => (hshown f hf).imp
      (fun hone => ⟨List.not_mem_nil, hone⟩) (fun hnone => ⟨hnone.1, fun _ => hnone.2⟩)
    obtain ⟨met, hfold, hdefaults⟩ := h.foldlM_takeField htexts hpending
    rw [Record.decode, h.start a, hfold]
    exact h.finish a met hdefaults
  | @array given omitted items hsplit hshown hdefaults =>
    subst hsplit
    have hdistinct : (given.map Field.name).Nodup :=
      (List.sublist_append_left given omitted |>.map _).nodup h.distinct
    obtain ⟨met, hitems, _, hgiven⟩ :=
      takeItems_of_takes (h.takes a) hdistinct (fun _ _ => List.not_mem_nil) hshown
    have hfinish : r.finish (state a met) = .ok a := by
      refine h.finish a met fun f hf hmet => ?_
      obtain hf | hf := List.mem_append.mp hf
      · exact absurd (hgiven f hf) hmet
      · exact hdefaults f hf
    rw [Record.decode, h.start a, hitems]
    change (r.finish (state a met)).mapError _ = .ok a
    rw [hfinish]
    rfl

/-! ## The records of a document -/

/-- An entry that decodes a value into the slot of its field takes the field. -/
theorem takes_slot {a : α} {f : Field α} {name : String} {decoder : Decoder β} {form : Form β}
    {b : β} {get : σ → Option β} {set : σ → Option β → σ} (h : Decodes decoder form)
    (hname : f.name = name) (hform : f.form a = form b)
    (hget : ∀ met, get (state a met) = slot met name b)
    (hset : ∀ met, set (state a met) (some b) = state a (name :: met)) :
    Takes state a (name, fun s v => (once name decoder (get s) v).map (set s)) f := by
  refine ⟨hname.symm, fun met v hmet hv => ?_⟩
  rw [hname] at hmet ⊢
  rw [hform] at hv
  change (once name decoder (get (state a met)) v).map (set (state a met)) = _
  rw [hget, once_slot h hmet hv, ← hset]
  rfl

/-- What a record keeps of a property. -/
def PropertySlots.after (p : PropertyDef) (met : List String) : PropertySlots where
  name := slot met "name" p.name
  type := slot met "type" p.type
  indexer := slot met "indexer" p.indexer

private theorem decodes_property : Decodes propertyRecord.decode propertyForm := by
  refine Record.Follows.decodes PropertySlots.after
    ⟨by decide, fun _ => rfl, fun p => ?_, fun p met h => ?_, rfl⟩
  · refine .cons (takes_slot decodes_string rfl rfl (fun _ => rfl) fun met => ?_) <|
      .cons (takes_slot decodes_reference rfl rfl (fun _ => rfl) fun met => ?_) <|
      .cons (takes_slot decodes_boolean rfl rfl (fun _ => rfl) fun met => ?_) .nil
    all_goals simp [PropertySlots.after, slot]
  · simp only [List.forall_mem_cons, Field.required, Field.defaulted] at h
    obtain ⟨hname, htype, hindexer, -⟩ := h
    simp only [propertyRecord, PropertySlots.after, required_slot (not_not.mp hname),
      required_slot (not_not.mp htype), getD_slot hindexer]
    rfl

/-- What a record keeps of a parameter. -/
def ParameterSlots.after (p : ParameterDef) (met : List String) : ParameterSlots where
  name := slot met "name" p.name
  type := slot met "type" p.type

private theorem decodes_parameter : Decodes parameterRecord.decode parameterForm := by
  refine Record.Follows.decodes ParameterSlots.after
    ⟨by decide, fun _ => rfl, fun p => ?_, fun p met h => ?_, rfl⟩
  · refine .cons (takes_slot decodes_string rfl rfl (fun _ => rfl) fun met => ?_) <|
      .cons (takes_slot decodes_reference rfl rfl (fun _ => rfl) fun met => ?_) .nil
    all_goals simp [ParameterSlots.after, slot]
  · simp only [List.forall_mem_cons, Field.required] at h
    obtain ⟨hname, htype, -⟩ := h
    simp only [parameterRecord, ParameterSlots.after, required_slot (not_not.mp hname),
      required_slot (not_not.mp htype)]
    rfl

/-- What a record keeps of an action. -/
def ActionSlots.after (a : ActionDef) (met : List String) : ActionSlots where
  name := slot met "name" a.name
  method := slot met "method" a.verb
  route := slot met "route" a.route
  returns := slot met "returns" a.returns
  parameters := slot met "parameters" a.parameters

private theorem decodes_verb : Decodes (variant Verb.all Verb.name) (variantForm Verb.name) :=
  .variant fun a => by cases a <;> rfl

private theorem decodes_action : Decodes actionRecord.decode actionForm := by
  refine Record.Follows.decodes ActionSlots.after
    ⟨by decide, fun _ => rfl, fun a => ?_, fun a met h => ?_, rfl⟩
  · refine .cons (takes_slot decodes_string rfl rfl (fun _ => rfl) fun met => ?_) <|
      .cons (takes_slot decodes_verb rfl rfl (fun _ => rfl) fun met => ?_) <|
      .cons (takes_slot (decodes_string.optional (fun _ h => by cases h)) rfl rfl
        (fun _ => rfl) fun met => ?_) <|
      .cons (takes_slot decodes_reference rfl rfl (fun _ => rfl) fun met => ?_) <|
      .cons (takes_slot decodes_parameter.sequence rfl rfl (fun _ => rfl) fun met => ?_) .nil
    all_goals simp [ActionSlots.after, slot]
  · simp only [List.forall_mem_cons, Field.required, Field.defaulted] at h
    obtain ⟨hname, hverb, hroute, hreturns, hparameters, -⟩ := h
    simp only [actionRecord, ActionSlots.after, required_slot (not_not.mp hname),
      getD_slot hverb, getD_slot hroute, getD_slot hreturns, getD_slot hparameters]
    rfl

/-- What a record keeps of a definition. -/
def DefinitionSlots.after (d : Definition) (met : List String) : DefinitionSlots where
  ns := slot met "namespace" d.ns
  name := slot met "name" d.name
  kind := slot met "kind" d.kind
  genericParameters := slot met "genericParameters" d.genericParameters
  baseType := slot met "baseType" d.baseType
  properties := slot met "properties" d.properties
  enumMembers := slot met "enumMembers" d.enumMembers
  controller := slot met "controller" d.controller
  actions := slot met "actions" d.actions

private theorem decodes_kind :
    Decodes (variant TypeKind.all TypeKind.name) (variantForm TypeKind.name) :=
  .variant fun a => by cases a <;> rfl

/-- Definitions are decoded from every form that describes them. -/
theorem decodes_definition : Decodes definitionRecord.decode definitionForm := by
  refine Record.Follows.decodes DefinitionSlots.after
    ⟨by decide, fun _ => rfl, fun d => ?_, fun d met h => ?_, rfl⟩
  · refine .cons (takes_slot decodes_string rfl rfl (fun _ => rfl) fun met => ?_) <|
      .cons (takes_slot decodes_string rfl rfl (fun _ => rfl) fun met => ?_) <|
      .cons (takes_slot decodes_kind rfl rfl (fun _ => rfl) fun met => ?_) <|
      .cons (takes_slot decodes_string.sequence rfl rfl (fun _ => rfl) fun met => ?_) <|
      .cons (takes_slot (decodes_reference.optional (fun _ h => by cases h)) rfl rfl
        (fun _ => rfl) fun met => ?_) <|
      .cons (takes_slot decodes_property.sequence rfl rfl (fun _ => rfl) fun met => ?_) <|
      .cons (takes_slot decodes_string.sequence rfl rfl (fun _ => rfl) fun met => ?_) <|
      .cons (takes_slot decodes_boolean rfl rfl (fun _ => rfl) fun met => ?_) <|
      .cons (takes_slot decodes_action.sequence rfl rfl (fun _ => rfl) fun met => ?_) .nil
    all_goals simp [DefinitionSlots.after, slot]
  · simp only [List.forall_mem_cons, Field.required, Field.defaulted] at h
    obtain ⟨hns, hname, hkind, hgenerics, hbase, hproperties, hmembers, hcontroller, hactions, -⟩ :=
      h
    simp only [definitionRecord, DefinitionSlots.after, required_slot (not_not.mp hname),
      required_slot (not_not.mp hkind), getD_slot hns, getD_slot hgenerics, getD_slot hbase,
      getD_slot hproperties, getD_slot hmembers, getD_slot hcontroller, getD_slot hactions]
    rfl

/-! ## Documents -/

/-- The definitions of a document are decoded from every form that describes them. -/
theorem decodes_document : Decodes catalogRecord.decode documentForm := by
  rintro ds v ⟨types, htypes, hv⟩
  have htake : once "types" (sequence definitionRecord.decode) none types = .ok (some ds) := by
    rw [once, decodes_definition.sequence ds types htypes]
    rfl
  obtain rfl | rfl := hv
  all_goals
    change ((once "types" (sequence definitionRecord.decode) none types).bind _).bind _ = _
    rw [htake]
    rfl

/-- A document has no field other than `types`. -/
theorem foldlM_takeField_unknown {name : String} (hname : name ≠ "types") {x : Value}
    {members : List (Option String × Value)} (h : (some name, x) ∈ members)
    (s : Option (List Definition)) :
    ∃ fault, members.foldlM catalogRecord.takeField s = .error fault := by
  induction members generalizing s with
  | nil => cases h
  | cons m members ih =>
    rw [List.foldlM_cons]
    obtain rfl | h := List.mem_cons.mp h
    · refine ⟨.unknownField name "types", ?_⟩
      have hlookup : catalogRecord.fields.lookup name = none := by
        simp [catalogRecord, List.lookup_cons, beq_eq_false_iff_ne.mpr hname]
      rw [Record.takeField, hlookup]
      rfl
    · cases hm : catalogRecord.takeField s m with
      | error fault => exact ⟨fault, rfl⟩
      | ok s' => exact ih h s'

end ApiTypings.Document

namespace ApiTypings.Catalog

open Document Json

/-- A document that describes definitions gives the catalog of those definitions, or names its
path where they repeat an identity; a document that is an object with a field other than `types`
gives none. -/
theorem ofDocument_described {text : String} {v : Value} (hread : Json.read text = some v)
    (path : String) :
    (∀ ds, documentForm ds v →
      ofDocument text path = (ofDefinitions ds).mapError fun id => ⟨path, .duplicate id⟩) ∧
    (∀ members name x, v = .object members → (some name, x) ∈ members → name ≠ "types" →
      ∃ fault, ofDocument text path = .error ⟨path, .document fault⟩) := by
  refine ⟨fun ds hds => ?_, ?_⟩
  · rw [ofDocument, Document.definitions, hread]
    simp only [decodes_document ds v hds, Except.mapError]
  · rintro members name x rfl hx hname
    obtain ⟨fault, hfold⟩ := foldlM_takeField_unknown hname hx catalogRecord.start
    have hdecode : catalogRecord.decode (.object members) = .error fault := by
      rw [Record.decode, hfold]
      rfl
    refine ⟨if isWellFormed text then fault else .malformed, ?_⟩
    rw [ofDocument, Document.definitions, hread]
    simp only [hdecode, Except.mapError]

/-- A document with fields out of order, an unknown field and a property as an array. -/
def sketch : String :=
  "\x7b\"types\":[\x7b\"x\":[],\"name\":\"A\",\"kind\":\"class\"," ++
    "\"properties\":[[\"b\",\"!0?\"]]\x7d]\x7d"

private theorem read_sketch : Json.read sketch =
    some (.object [(some "types", .array [.object [(some "x", .array []),
      (some "name", .string (some "A")), (some "kind", .string (some "class")),
      (some "properties", .array [.array [.string (some "b"), .string (some "!0?")]])]])]) := by
  -- The derivation of the text, rule by rule.
  refine read_of_gives rfl (gives_object rfl (fun _ h => by cases h) <|
    gives_fields rfl rfl rfl rfl (gives_array rfl (fun _ h => by cases h) <|
      gives_items (gives_object rfl (fun _ h => by cases h) <|
        gives_fields rfl rfl rfl rfl (gives_emptyArray rfl rfl) <| .inr ⟨_, rfl,
        gives_fields rfl rfl rfl rfl (gives_string rfl rfl) <| .inr ⟨_, rfl,
        gives_fields rfl rfl rfl rfl (gives_string rfl rfl) <| .inr ⟨_, rfl,
        gives_fields rfl rfl rfl rfl (gives_array rfl (fun _ h => by cases h) <|
          gives_items (gives_array rfl (fun _ h => by cases h) <|
            gives_items (gives_string rfl rfl) <| .inr ⟨_, rfl,
            gives_items (gives_string rfl rfl) <| .inl ⟨rfl, rfl⟩⟩) <|
          .inl ⟨rfl, rfl⟩) <|
        .inl ⟨rfl, rfl⟩⟩⟩⟩) <|
      .inl ⟨rfl, rfl⟩) <|
    .inl ⟨rfl, rfl⟩) rfl

private theorem sketch_described : documentForm
    [{ name := "A", kind := .classType,
       properties := [{ name := "b", type := .nullable (.param 0) }] }]
    (.object [(some "types", .array [.object [(some "x", .array []),
      (some "name", .string (some "A")), (some "kind", .string (some "class")),
      (some "properties", .array [.array [.string (some "b"), .string (some "!0?")]])]])]) := by
  have htype : referenceForm (.nullable (.param 0)) (.string (some "!0?")) :=
    ⟨(Reference.nullable (.param 0)).display, rfl,
      Reference.parse_display (by simp [Reference.WellFormed, Reference.positionBound])⟩
  have hproperty : propertyForm { name := "b", type := .nullable (.param 0) }
      (.array [.string (some "b"), .string (some "!0?")]) :=
    @RecordForm.array _ _ _ [_, _] [_] _ rfl (.cons rfl (.cons htype .nil))
      (by simp [Field.defaulted])
  have hproperties : listForm propertyForm [{ name := "b", type := .nullable (.param 0) }]
      (.array [.array [.string (some "b"), .string (some "!0?")]]) :=
    ⟨_, rfl, .cons hproperty .nil⟩
  refine ⟨_, ⟨_, rfl, .cons (.object (by simp) ?_) .nil⟩, .inl rfl⟩
  simpa [Field.required, Field.defaulted, valuesOf, textForm, variantForm, TypeKind.name] using
    hproperties

/-- A document with an unknown field, fields left out and a property as an array is read. -/
theorem ofDocument_sketch : (ofDocument sketch "a.json").map definitions =
    .ok [{ name := "A", kind := .classType,
           properties := [{ name := "b", type := .nullable (.param 0) }] }] := by
  rw [(ofDocument_described read_sketch "a.json").1 _ sketch_described]
  rfl

end ApiTypings.Catalog
