import ApiTypings.Proofs.Render.Channels
import ApiTypings.Proofs.TypeScript.Identifier

/-!
# The names that a method binds

A method binds the names of the contract and the identifiers of its action's parameters, and its
body calls two functions of the language when the route has segments. Nothing compares these names:
parameters that are merged share an identifier, and one that is called like a name of the contract
or like one of the functions takes its place. Apart from that each name is bound once.
-/

namespace ApiTypings

namespace TypeScript

/-- The identifiers that stand in a statement. -/
def Statement.occurrences : Statement → List Occurrence
  | returns value => value.occurrences

/-- The identifiers that stand in the body of a method. -/
def Method.occurrences (m : Method) : List Occurrence :=
  m.body.toList.flatMap fun body => body.flatMap Statement.occurrences

end TypeScript

open TypeScript (Merged Method Occurrence Parameter identifier)

/-- The functions of the language that the URL of a route with segments calls. -/
def Render.urlFunctions : List String := ["encodeURIComponent", "String"]

/-- A name is made the identifier of such a function only if it is its name. -/
theorem Render.identifier_mem_urlFunctions_iff {name : String} :
    identifier name ∈ urlFunctions ↔ name = "encodeURIComponent" ∨ name = "String" := by
  simp only [urlFunctions, List.mem_cons, List.not_mem_nil, or_false,
    TypeScript.identifier_eq_iff (show '_' ∉ "encodeURIComponent".toList by decide) (by decide),
    TypeScript.identifier_eq_iff (show '_' ∉ "String".toList by decide) (by decide)]

namespace ActionDef

/-- The path of an action has a segment. -/
def HasSegment (controller : String) (action : ActionDef) : Prop :=
  ∃ placeholder, Render.Segment (Render.actionPath controller action).toList placeholder

variable {action : ActionDef} {controller : String}

private theorem hasSegment_iff : action.HasSegment controller ↔
    ∃ s, s ∈ (Render.Route.ofPath (Render.actionPath controller action).toList).segments := by
  simp only [HasSegment, Render.Route.segment_iff_mem_ofPath, List.mem_map]
  constructor
  · rintro ⟨_, s, hs, _⟩
    exact ⟨s, hs⟩
  · rintro ⟨s, hs⟩
    exact ⟨s.2, s, hs, rfl⟩

/-- No parameter has an identifier without `_` as its own when none is called like it. -/
theorem not_mem_identifiers_iff {w : String} (hw : '_' ∉ w.toList) (hself : identifier w = w) :
    w ∉ action.parameters.map (fun p => identifier p.name) ↔
      ∀ p ∈ action.parameters, p.name ≠ w := by
  simp [TypeScript.identifier_eq_iff hw hself]

namespace Channels

variable {route : Render.Route} {url payload : TypeScript.Expr} {name : String}

/-- Functions are called in a URL exactly when its path has a segment. -/
theorem called_in_url_iff (h : action.Channels route url payload) :
    .called name ∈ url.occurrences ↔
      (∃ s, s ∈ route.segments) ∧ name ∈ Render.urlFunctions := by
  have hinUrl : (∃ i, i ∈ action.inUrl route) ↔ ∃ s, s ∈ route.segments := by
    simp only [mem_inUrl_iff]
    constructor
    · rintro ⟨_, s, hs, _⟩
      exact ⟨s, hs⟩
    · rintro ⟨s, hs⟩
      obtain ⟨i, hi, _⟩ := h.bound s hs
      exact ⟨i, s, hs, hi⟩
  rw [h.encoded, ← hinUrl]
  simp [Render.urlFunctions]

private theorem value_in_url (h : action.Channels route url payload)
    (hname : .value name ∈ url.occurrences) :
    name ∈ action.parameters.map fun p => identifier p.name := by
  rw [h.encoded] at hname
  simp only [List.mem_flatMap, List.mem_cons, List.not_mem_nil, or_false, reduceCtorEq, false_or,
    Occurrence.value.injEq] at hname
  obtain ⟨i, _, rfl⟩ := hname
  exact List.mem_map_of_mem (List.getElem_mem i.isLt)

private theorem not_called_in_payload (h : action.Channels route url payload) :
    .called name ∉ payload.occurrences := by
  rw [h.carried]
  simp

private theorem value_in_payload (h : action.Channels route url payload)
    (hname : .value name ∈ payload.occurrences) :
    name ∈ action.parameters.map fun p => identifier p.name := by
  rw [h.carried] at hname
  simp only [List.mem_map, Occurrence.value.injEq] at hname
  obtain ⟨i, _, rfl⟩ := hname
  exact List.mem_map_of_mem (List.getElem_mem i.isLt)

end Channels

end ActionDef

namespace Render.Context

variable {ctx : Context} {node : Node} {action : ActionDef} {m : Method}

/-- The body of a method names the parameters of the method. It calls the two functions if its route
has segments, and nothing else by name. -/
theorem occurrences_of_method (h : ctx.method node action = .ok m) :
    (∀ name, .value name ∈ m.occurrences → name ∈ m.params.map Parameter.name) ∧
      ∀ name, .called name ∈ m.occurrences ↔
        action.HasSegment node.identity.name ∧ name ∈ urlFunctions := by
  obtain ⟨hparams, result, url, payload, hbody, hchannels⟩ := exists_channels_of_method h
  have hoccurrences : m.occurrences =
      .value "restApi" :: (url.occurrences ++ (payload.occurrences ++ [.value "config"])) := by
    rw [Method.occurrences, hbody]
    simp [TypeScript.Statement.occurrences, TypeScript.Expr.occurrences,
      TypeScript.Expr.occurrencesOfAll]
  rw [hoccurrences, hparams]
  constructor
  · intro name hname
    simp only [List.mem_cons, List.mem_append, List.not_mem_nil, or_false,
      Occurrence.value.injEq] at hname
    simp only [List.cons_append, List.mem_cons, List.mem_append, List.not_mem_nil, or_false]
    rcases hname with rfl | hurl | hpayload | rfl
    · exact .inl rfl
    · exact .inr (.inl (hchannels.value_in_url hurl))
    · exact .inr (.inl (hchannels.value_in_payload hpayload))
    · exact .inr (.inr rfl)
  · intro name
    rw [ActionDef.hasSegment_iff, ← hchannels.called_in_url_iff]
    simp [hchannels.not_called_in_payload]

/-- The parameters of a method are told apart by their names exactly when none of its action's is
called like one of the contract and no two of them are merged. None takes the place of a function
that the body calls exactly when none is called like one or the route has no segments. Every other
identifier in the body is the name of a parameter of the method. -/
theorem nodup_parameters_iff (h : ctx.method node action = .ok m)
    (hdistinct : (action.parameters.map ParameterDef.name).Nodup) :
    ((m.params.map Parameter.name).Nodup ↔
      (∀ p ∈ action.parameters, p.name ≠ "restApi" ∧ p.name ≠ "config") ∧
      ∀ p ∈ action.parameters, ∀ q ∈ action.parameters, Merged p.name q.name →
        p.name = q.name) ∧
    ((∀ p ∈ action.parameters, .called (identifier p.name) ∉ m.occurrences) ↔
      (action.HasSegment node.identity.name →
        ∀ p ∈ action.parameters, p.name ≠ "encodeURIComponent" ∧ p.name ≠ "String")) ∧
    ∀ name, .value name ∈ m.occurrences → name ∈ m.params.map Parameter.name := by
  obtain ⟨hvalues, hcalled⟩ := occurrences_of_method h
  obtain ⟨hparams, _⟩ := exists_channels_of_method h
  have hidents : action.parameters.map (fun p => identifier p.name) =
      (action.parameters.map ParameterDef.name).map identifier := by
    rw [List.map_map]
    rfl
  refine ⟨?distinct, ?functions, hvalues⟩
  case distinct =>
    have hapi : "restApi" ∉ action.parameters.map (fun p => identifier p.name) ↔
        ∀ p ∈ action.parameters, p.name ≠ "restApi" :=
      ActionDef.not_mem_identifiers_iff (by decide) (by decide)
    have hconfig : "config" ∉ action.parameters.map (fun p => identifier p.name) ↔
        ∀ p ∈ action.parameters, p.name ≠ "config" :=
      ActionDef.not_mem_identifiers_iff (by decide) (by decide)
    rw [hparams, List.cons_append, List.nodup_cons, List.nodup_append_comm, List.singleton_append,
      List.nodup_cons, hconfig, List.mem_append, not_or, hapi, hidents,
      List.nodup_map_iff_inj_on hdistinct]
    simp only [List.forall_mem_map, TypeScript.identifier_eq_identifier_iff, forall_and]
    simp [and_assoc]
  case functions =>
    simp only [hcalled, identifier_mem_urlFunctions_iff, not_and, not_or]
    exact ⟨fun hall hsegment p hp => hall p hp hsegment,
      fun hall p hp hsegment => hall hsegment p hp⟩

end Render.Context

namespace Shop

open Render (Context)

/-- The action that relabels lines declares an identifier twice; what its body calls stays what it
is. -/
theorem nodup_parameters_relabel : ∃ m,
    linesContext.method (.ofDefinition linesController) relabel = .ok m ∧
      (relabel.parameters.map ParameterDef.name).Nodup ∧
      ¬ (m.params.map Parameter.name).Nodup ∧
      ∀ p ∈ relabel.parameters, .called (identifier p.name) ∉ m.occurrences := by
  have hdistinct : (relabel.parameters.map ParameterDef.name).Nodup := by decide
  obtain ⟨m, hm⟩ := exists_method_relabel
  obtain ⟨hnodup, hfunctions, _⟩ := Context.nodup_parameters_iff hm hdistinct
  refine ⟨m, hm, hdistinct, fun h => ?_, hfunctions.mpr fun _ => by decide⟩
  have hsecond : relabel.parameters[1] ∈ relabel.parameters := List.getElem_mem _
  have hthird : relabel.parameters[2] ∈ relabel.parameters := List.getElem_mem _
  have hmerged : Merged "line-no" "line_no" := .inl (by decide)
  exact absurd ((hnodup.mp h).2 _ hsecond _ hthird hmerged) (by decide)

/-- An action whose parameters are called like the options of a request, like a function that its
body calls, and alike up to a character that no identifier holds. -/
def search : ActionDef where
  name := "Search"
  route := some "search/\x7bString\x7d"
  parameters := [
    { name := "String", type := .simple "System.String" },
    { name := "config", type := .simple "System.Int32" },
    { name := "page-size", type := .simple "System.Int32" },
    { name := "page_size", type := .simple "System.Int32" }]

/-- A controller with that action. -/
def searchController : Definition where
  ns := "Shop"
  name := "SearchController"
  kind := .classType
  controller := true
  actions := [search]

/-- The context of a run that has found that controller only. -/
def searchContext : Context where
  moduleStyle := .modules
  strictNull := false
  graph := ⟨[.ofDefinition searchController]⟩

/-- The parameters of the action have different names, and it gets a method. This method declares
two identifiers twice, and one of its parameters takes the place of a function that it calls. -/
theorem not_nodup_parameters_search : ∃ m,
    searchContext.method (.ofDefinition searchController) search = .ok m ∧
      (search.parameters.map ParameterDef.name).Nodup ∧
      m.params.map Parameter.name =
        ["restApi", "String", "config", "page_size", "page_size", "config"] ∧
      ¬ (m.params.map Parameter.name).Nodup ∧
      .called "String" ∈ m.occurrences ∧
      "String" ∈ search.parameters.map fun p => identifier p.name := by
  obtain ⟨m, hm⟩ : ∃ m,
      searchContext.method (.ofDefinition searchController) search = .ok m :=
    exists_ok_of_isOk (by decide +kernel)
  have hparams : m.params.map Parameter.name =
      ["restApi", "String", "config", "page_size", "page_size", "config"] :=
    (Context.exists_channels_of_method hm).1.trans (by decide)
  refine ⟨m, hm, by decide, hparams, ?_, ?_, by decide⟩
  · rw [hparams]
    decide
  · rw [(Context.occurrences_of_method hm).2, ActionDef.hasSegment_iff]
    exact ⟨⟨("/search/".toList, "String".toList), by decide +kernel⟩, by decide⟩

end Shop

end ApiTypings
