import ApiTypings.Proofs.Render.Binding
import ApiTypings.Render.Writer
import Mathlib.Data.List.FinRange

/-!
# How parameters reach a request

The method for an action takes each parameter of the action and passes it on in one way. A segment
of the route is bound to the first parameter that fills it. A parameter that segments are bound to
stands in the URL once for each of them; every other one stands in the payload, once and in order.
Parameters are told apart by their positions here, since two of them may share an identifier.
-/

namespace ApiTypings

namespace TypeScript

/-- An identifier that stands in an expression. -/
inductive Occurrence where
  /-- The name of a function that is called. -/
  | called (name : String)
  | value (name : String)
  deriving DecidableEq, Repr

mutual

/-- The identifiers that stand in an expression, in the order in which they are written. -/
def Expr.occurrences : Expr → List Occurrence
  | .ident name => [.value name]
  | .string _ => []
  | .call (.ident function) _ args => .called function :: Expr.occurrencesOfAll args
  | .call callee _ args => callee.occurrences ++ Expr.occurrencesOfAll args
  | .object fields => Expr.fieldOccurrences fields
  | .member object _ => object.occurrences
  | .template parts => TemplatePart.occurrencesOfAll parts

/-- The identifiers that stand in several expressions. -/
def Expr.occurrencesOfAll : List Expr → List Occurrence
  | [] => []
  | e :: es => e.occurrences ++ Expr.occurrencesOfAll es

/-- The identifiers that stand in the fields of an object literal; its keys are none. -/
def Expr.fieldOccurrences : List (String × Expr) → List Occurrence
  | [] => []
  | (_, value) :: fields => value.occurrences ++ Expr.fieldOccurrences fields

/-- The identifiers that stand in a part of a template literal. -/
def TemplatePart.occurrences : TemplatePart → List Occurrence
  | .text _ => []
  | .hole value => value.occurrences

/-- The identifiers that stand in several parts of a template literal. -/
def TemplatePart.occurrencesOfAll : List TemplatePart → List Occurrence
  | [] => []
  | p :: ps => p.occurrences ++ TemplatePart.occurrencesOfAll ps

end

/-- What occurs in parts of a template occurs in one of them, in order. -/
theorem TemplatePart.occurrencesOfAll_append (ps qs : List TemplatePart) :
    TemplatePart.occurrencesOfAll (ps ++ qs) =
      TemplatePart.occurrencesOfAll ps ++ TemplatePart.occurrencesOfAll qs := by
  induction ps with
  | nil => rfl
  | cons p ps ih =>
    rw [List.cons_append, TemplatePart.occurrencesOfAll, TemplatePart.occurrencesOfAll, ih,
      List.append_assoc]

end TypeScript

open TypeScript (Expr Occurrence Parameter TemplatePart identifier)
open Render (Argument Route)

instance (a : Argument) (placeholder : List Char) : Decidable (a.Fills placeholder) :=
  decidable_of_iff _ Argument.fills_iff.symm

namespace ActionDef

/-- The place of a parameter among those of its action. -/
abbrev Position (action : ActionDef) : Type := Fin action.parameters.length

variable (action : ActionDef)

/-- The identifier that a parameter is bound to. -/
def ident (i : action.Position) : String := identifier action.parameters[i].name

/-- A parameter fills a segment when it is called like it, the case of letters aside. -/
def Fills (placeholder : List Char) (i : action.Position) : Prop :=
  (Argument.ofParameter action.parameters[i]).Fills placeholder
  deriving Decidable

/-- A segment is bound to the first parameter that fills it. -/
def Binds (placeholder : List Char) (i : action.Position) : Prop :=
  action.Fills placeholder i ∧ ∀ j < i, ¬ action.Fills placeholder j
  deriving Decidable

/-- The parameters that the segments of a route are bound to, in the order of the segments. -/
def inUrl (route : Route) : List action.Position :=
  route.segments.flatMap fun s => (List.finRange _).filter fun i => action.Binds s.2 i

/-- The parameters that no segment of a route is bound to, in their own order. -/
def inPayload (route : Route) : List action.Position :=
  (List.finRange _).filter fun i => ∀ s ∈ route.segments, ¬ action.Binds s.2 i

/-- The parameters of an action reach a request by its URL or by its payload. -/
structure Channels (route : Route) (url payload : Expr) : Prop where
  bound : ∀ s ∈ route.segments, ∃! i, action.Binds s.2 i
  timesInUrl : ∀ i, (action.inUrl route).count i =
    route.segments.countP fun s => action.Binds s.2 i
  timesInPayload : ∀ i, (action.inPayload route).count i =
    if ∃ s ∈ route.segments, action.Binds s.2 i then 0 else 1
  ordered : (action.inPayload route).Pairwise (· < ·)
  /-- The URL encodes the parameter of each segment. -/
  encoded : url.occurrences = (action.inUrl route).flatMap fun i =>
    [.called "encodeURIComponent", .called "String", .value (action.ident i)]
  carried : payload.occurrences = (action.inPayload route).map fun i => .value (action.ident i)
  /-- The one parameter that is left to a request with a body is its body. -/
  bare : (∃ name, payload = .ident name) ↔
    (action.verb = .post ∨ action.verb = .put) ∧ (action.inPayload route).length = 1
  object : (¬ ∃ name, payload = .ident name) →
    payload = .object ((action.inPayload route).map fun i =>
      (action.parameters[i].name, .ident (action.ident i)))

variable {action} {route : Route} {placeholder : List Char} {i j : action.Position}

/-- A placeholder binds one parameter. -/
theorem Binds.unique (hi : action.Binds placeholder i) (hj : action.Binds placeholder j) :
    i = j := by
  rcases lt_trichotomy i j with hlt | heq | hlt
  · exact absurd hi.1 (hj.2 i hlt)
  · exact heq
  · exact absurd hj.1 (hi.2 j hlt)

/-- The parameter that a segment is bound to is the one the reader of routes finds. -/
theorem exists_binds_of_position? {position : Nat}
    (h : Argument.position? (action.parameters.map Argument.ofParameter) placeholder =
      some position) : ∃ i : action.Position, i = position ∧ action.Binds placeholder i := by
  obtain ⟨hlt, hfills, hearlier⟩ := List.findIdx?_eq_some_iff_getElem.mp h
  rw [List.length_map] at hlt
  refine ⟨⟨position, hlt⟩, rfl, ?_, fun j hj => ?_⟩
  · rw [List.getElem_map] at hfills
    exact Argument.fills_iff.mpr hfills
  · have hnot := hearlier j hj
    rw [List.getElem_map] at hnot
    exact fun hj => hnot (Argument.fills_iff.mp hj)

/-- Of all parameters a segment selects the one that it is bound to. -/
theorem filter_binds (h : action.Binds placeholder i) :
    ((List.finRange action.parameters.length).filter fun j => action.Binds placeholder j) =
      [i] := by
  have hself : ∀ j ∈ List.finRange action.parameters.length,
      decide (action.Binds placeholder j) = decide (j = i) := fun j _ =>
    decide_eq_decide.mpr ⟨fun hj => hj.unique h, fun hj => hj ▸ h⟩
  rw [List.filter_congr hself, List.filter_eq,
    List.count_eq_one_of_mem (List.nodup_finRange _) (List.mem_finRange i)]
  rfl

/-- A parameter is in the URL as often as segments are bound to it. -/
theorem count_inUrl (i : action.Position) :
    (action.inUrl route).count i = route.segments.countP fun s => action.Binds s.2 i := by
  have hone : ∀ s, ((List.finRange action.parameters.length).filter
      fun j => action.Binds s j).count i = if action.Binds s i then 1 else 0 := by
    intro s
    split
    · next h =>
      rw [filter_binds h]
      exact List.count_singleton_self
    · next h => exact List.count_eq_zero_of_not_mem fun hmem => h (by simpa using hmem)
  rw [inUrl, List.count_flatMap]
  induction route.segments with
  | nil => rfl
  | cons s segments ih =>
    rw [List.map_cons, List.sum_cons, ih, Function.comp_apply, hone, List.countP_cons]
    simp only [decide_eq_true_eq]
    omega

/-- A parameter is in the payload once if no segment is bound to it, and else never. -/
theorem count_inPayload (i : action.Position) :
    (action.inPayload route).count i =
      if ∃ s ∈ route.segments, action.Binds s.2 i then 0 else 1 := by
  have hmem : i ∈ action.inPayload route ↔ ¬ ∃ s ∈ route.segments, action.Binds s.2 i := by
    simp [inPayload]
  split
  · next h => exact List.count_eq_zero_of_not_mem fun hi => hmem.mp hi h
  · next h =>
    exact List.count_eq_one_of_mem ((List.nodup_finRange _).filter _) (hmem.mpr h)

/-- In the URL are the parameters that a segment binds. -/
theorem mem_inUrl_iff :
    i ∈ action.inUrl route ↔ ∃ s ∈ route.segments, action.Binds s.2 i := by
  simp [inUrl]

/-- The parameters in the URL are those at the positions that the reader of routes finds. -/
theorem map_inUrl {bound : List Nat}
    (h : List.Forall₂ (fun s p => Argument.position?
      (action.parameters.map Argument.ofParameter) s.2 = some p) route.segments bound) :
    (action.inUrl route).map Fin.val = bound := by
  rw [inUrl, List.map_flatMap]
  generalize route.segments = segments at h
  induction h with
  | nil => rfl
  | cons hp _ ih =>
    obtain ⟨i, rfl, hi⟩ := exists_binds_of_position? hp
    rw [List.flatMap_cons, filter_binds hi, ih]
    rfl

/-- The parameters in the payload are the arguments at the other positions. -/
theorem unbound_eq {bound : List Nat} (h : (action.inUrl route).map Fin.val = bound) :
    Render.unbound (action.parameters.map Argument.ofParameter) bound =
      (action.inPayload route).map fun i => Argument.ofParameter action.parameters[i] := by
  have hpositions : (action.parameters.map Argument.ofParameter).zipIdx =
      (List.finRange action.parameters.length).map fun i =>
        (Argument.ofParameter action.parameters[i], i.val) := by
    refine List.ext_getElem (by simp) fun k hk hk' => ?_
    simp
  have hkept : ∀ i ∈ List.finRange action.parameters.length,
      (!bound.contains i.val) = decide (∀ s ∈ route.segments, ¬ action.Binds s.2 i) := by
    intro i _
    rw [← h, Bool.eq_iff_iff, Bool.not_eq_true', decide_eq_true_eq, List.contains_eq_mem,
      decide_eq_false_iff_not, List.mem_map_of_injective Fin.val_injective, mem_inUrl_iff]
    simp
  rw [Render.unbound, hpositions, List.filter_map, List.map_map, inPayload]
  exact congrArg _ (List.filter_congr hkept)

end ActionDef

namespace Render

/-- A payload holds its arguments, each once and in order. -/
theorem occurrences_payload (verb : Verb) (arguments : List Argument) :
    (payload verb arguments).occurrences = arguments.map fun a => .value a.ident := by
  have hfields : ∀ as : List Argument,
      Expr.fieldOccurrences (as.map fun a => (a.key, .ident a.ident)) =
        as.map fun a => .value a.ident := by
    intro as
    induction as with
    | nil => rfl
    | cons a as ih => rw [List.map_cons, Expr.fieldOccurrences, ih, List.map_cons]; rfl
  unfold payload
  split
  · rfl
  · exact hfields _

/-- A payload is a bare name exactly for the one argument of a write. -/
theorem payload_bare_iff {verb : Verb} {arguments : List Argument} :
    (∃ name, payload verb arguments = .ident name) ↔
      (verb = .post ∨ verb = .put) ∧ arguments.length = 1 := by
  have hverb : verb.hasBody = true ↔ verb = .post ∨ verb = .put := by
    cases verb <;> decide
  rw [← hverb]
  unfold payload
  split
  · next hbody => simp [hbody]
  · next hother =>
    refine ⟨nofun, ?_⟩
    rintro ⟨hbody, hone⟩
    obtain ⟨a, rfl⟩ := List.length_eq_one_iff.mp hone
    exact (hother a rfl hbody).elim

private theorem payload_object {verb : Verb} {arguments : List Argument}
    (h : ¬ ∃ name, payload verb arguments = .ident name) :
    payload verb arguments = .object (arguments.map fun a => (a.key, .ident a.ident)) := by
  unfold payload at h ⊢
  split at h
  · exact absurd ⟨_, rfl⟩ h
  · rfl

namespace Route

private theorem occurrences_textPart (text : List Char) :
    TemplatePart.occurrencesOfAll (textPart text) = [] := by
  rw [textPart]
  split <;> rfl

/-- A template encodes the arguments at the positions of its segments. -/
theorem occurrences_parts {arguments : List Argument} {tail : List Char}
    {segments : List (List Char × List Char)} {bound : List Nat}
    (h : segments.length = bound.length) :
    TemplatePart.occurrencesOfAll (parts arguments tail segments bound) =
      bound.flatMap fun p => arguments[p]?.toList.flatMap fun a =>
        [.called "encodeURIComponent", .called "String", .value a.ident] := by
  induction segments generalizing bound with
  | nil =>
    obtain rfl := List.length_eq_zero_iff.mp h.symm
    exact occurrences_textPart tail
  | cons s segments ih =>
    cases bound with
    | nil => cases h
    | cons position bound =>
      rw [parts, TemplatePart.occurrencesOfAll_append, TemplatePart.occurrencesOfAll_append,
        occurrences_textPart, ih (Nat.succ.inj h), List.flatMap_cons]
      cases arguments[position]? <;> rfl

/-- A URL is made from the positions that its segments are bound to. -/
theorem of_url {path : String} {arguments : List Argument} {made : Expr} {bound : List Nat}
    (h : url path arguments = .ok (made, bound)) :
    List.Forall₂ (fun s p => Argument.position? arguments s.2 = some p)
        (ofPath path.toList).segments bound ∧
      made.occurrences = bound.flatMap fun p => arguments[p]?.toList.flatMap fun a =>
        [.called "encodeURIComponent", .called "String", .value a.ident] := by
  cases hb : bind arguments (ofPath path.toList).segments with
  | error u =>
    rw [url_error_iff.mpr hb] at h
    cases h
  | ok positions =>
    have hpositions := bind_eq_ok_iff.mp hb
    rw [url_of_bind hb] at h
    cases h
    refine ⟨hpositions, ?_⟩
    split
    · next hnone =>
      rw [hnone]
      rfl
    · exact occurrences_parts hpositions.length_eq

end Route

namespace Context

/-- The URL and the payload that a method makes share out the parameters of its action. -/
theorem channels_of_url {action : ActionDef} {path : String} {url : Expr} {bound : List Nat}
    (h : Route.url path (action.parameters.map Argument.ofParameter) = .ok (url, bound)) :
    action.Channels (Route.ofPath path.toList) url
      (payload action.verb
        (unbound (action.parameters.map Argument.ofParameter) bound)) := by
  obtain ⟨hpositions, hurl⟩ := Route.of_url h
  have hinUrl := ActionDef.map_inUrl hpositions
  rw [ActionDef.unbound_eq hinUrl]
  refine ⟨fun s hs => ?bound, ActionDef.count_inUrl, ActionDef.count_inPayload, ?ordered, ?encoded,
    ?carried, ?bare, ?object⟩
  case bound =>
    have hsome := Route.exists_bind_iff.mp ⟨bound, Route.bind_eq_ok_iff.mpr hpositions⟩ s hs
    obtain ⟨p, hp⟩ := Option.isSome_iff_exists.mp hsome
    obtain ⟨i, _, hi⟩ := ActionDef.exists_binds_of_position? hp
    exact ⟨i, hi, fun j hj => hj.unique hi⟩
  case ordered => exact (List.pairwise_lt_finRange _).filter _
  case encoded =>
    rw [hurl, ← hinUrl, List.flatMap_map]
    refine congrArg (List.flatMap · _) (funext fun i => ?_)
    simp [ActionDef.ident, Argument.ofParameter]
  case carried =>
    rw [occurrences_payload, List.map_map]
    rfl
  case bare => rw [payload_bare_iff, List.length_map]
  case object =>
    intro hbare
    rw [payload_object hbare, List.map_map]
    rfl

/-- What a method declares, and what its body sends. -/
theorem exists_channels_of_method {ctx : Context} {node : Node} {action : ActionDef}
    {m : TypeScript.Method} (h : ctx.method node action = .ok m) :
    m.params.map Parameter.name =
      "restApi" :: action.parameters.map (fun p => identifier p.name) ++ ["config"] ∧
    ∃ result url payload,
      m.body = some [.returns (.call (.member (.ident "restApi") action.verb.clientMethod) [result]
        [url, payload, .ident "config"])] ∧
      action.Channels (Route.ofPath (actionPath node.identity.name action).toList) url payload := by
  rw [method] at h
  obtain ⟨result, _, h⟩ := exists_of_bind_ok h
  obtain ⟨params, hparams, h⟩ := exists_of_bind_ok h
  obtain ⟨⟨url, bound⟩, hurl, h⟩ := exists_of_bind_ok h
  cases h
  refine ⟨?_, result, url, _, rfl, channels_of_url (mapError_eq_ok_iff.mp hurl)⟩
  have hnames : params.map Parameter.name = action.parameters.map fun p => identifier p.name := by
    refine map_eq_map_of_mapM (fun p q hq => ?_) hparams
    obtain ⟨t, _, rfl⟩ := exists_of_map_ok hq
    rfl
  rw [List.map_append, List.map_append, hnames]
  rfl

/-- The method for an action declares its parameters between those of the contract, and its body
passes each of them on in one way: encoded in the URL once for each segment of the route that is
bound to it, or else once in the payload. -/
theorem method_channels {ctx : Context} {node : Node} {action : ActionDef}
    {m : TypeScript.Method} (h : ctx.method node action = .ok m) :
    m.params.map Parameter.name =
      "restApi" :: action.parameters.map (fun p => identifier p.name) ++ ["config"] ∧
    ∃ route result url payload,
      (∀ other, Route.Reads (actionPath node.identity.name action).toList other ↔
        other = route) ∧
      m.body = some [.returns (.call (.member (.ident "restApi") action.verb.clientMethod) [result]
        [url, payload, .ident "config"])] ∧
      action.Channels route url payload := by
  obtain ⟨hparams, result, url, payload, hbody, hchannels⟩ := exists_channels_of_method h
  exact ⟨hparams, _, result, url, payload, fun other => Route.reads_iff, hbody, hchannels⟩

end Context

end Render

namespace Shop

open Render (Context)

/-- An action whose route names one parameter twice, and whose other two share an identifier. -/
def relabel : ActionDef where
  name := "Relabel"
  verb := .put
  route := some "lines/\x7bOrder:int\x7d/of/\x7border?\x7d"
  parameters := [
    { name := "order", type := .simple "System.Int32" },
    { name := "line-no", type := .simple "System.Int32" },
    { name := "line_no", type := .simple "System.Int32" }]

/-- A controller with that action. -/
def linesController : Definition where
  ns := "Shop"
  name := "LinesController"
  kind := .classType
  controller := true
  actions := [relabel]

/-- The context of a run that has found the controller only. -/
def linesContext : Context where
  moduleStyle := .modules
  strictNull := false
  graph := ⟨[.ofDefinition linesController]⟩

/-- The action is written as a method. -/
theorem exists_method_relabel :
    ∃ m, linesContext.method (.ofDefinition linesController) relabel = .ok m :=
  exists_ok_of_isOk (by decide +kernel)

/-- The first parameter of the action is encoded in the URL twice, and the other two stand in the
payload. -/
theorem method_channels_relabel : ∃ m,
    linesContext.method (.ofDefinition linesController) relabel = .ok m ∧
    ∃ route url payload, relabel.Channels route url payload ∧
      (relabel.inUrl route).map Fin.val = [0, 0] ∧
      (relabel.inPayload route).map Fin.val = [1, 2] := by
  obtain ⟨m, hm⟩ := exists_method_relabel
  obtain ⟨_, route, result, url, payload, hroute, _, hchannels⟩ := Context.method_channels hm
  obtain rfl := (hroute _).mp (Route.reads_ofPath _)
  refine ⟨m, hm, _, url, payload, hchannels, ?_, ?_⟩
  · decide +kernel
  · decide +kernel

end Shop

end ApiTypings
