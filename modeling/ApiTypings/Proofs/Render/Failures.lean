import ApiTypings.Generation
import ApiTypings.Proofs.Reference.RoundTrip
import ApiTypings.Proofs.Render.Mapping

/-!
# Failures of the mapping

In the graph of a discovery the mapping fails on a reference as soon as a part of it is refused, at
whatever depth and in whatever argument, and it fails on no other reference. The one exception is
the key of a dictionary: a record has text for its keys, so nothing is mapped for a key, and one
that would be refused anywhere else is accepted.
-/

namespace ApiTypings

open Reference (Part)

namespace Render.Context

/-- In the graph of a discovery, mapping a reference that was read fails exactly when a part of it
is refused, and the error gives the reason for such a part. -/
theorem map_fails_iff_refused {c : Catalog} {entryPoints : List Identity} {ctx : Context}
    (h : discover c entryPoints = .ok ctx.graph) {text : String} {r : Reference}
    (hr : Reference.parse text = .ok r) (node : Node) (member : Member) :
    ((∃ e, ctx.map node member r = .error e) ↔
      ∃ p reason, Part p r ∧ ctx.Refuses node p reason) ∧
    ∀ e, ctx.map node member r = .error e → ctx.Explains node member r e := by
  have hsys : ∀ id, id.isSystem = true → ctx.graph.node? id = none := fun _ => node?_of_isSystem h
  have hwf := Reference.wellFormed_of_parse hr
  refine ⟨⟨?_, ?_⟩, fun e => explains_of_map_error hsys hwf⟩
  · rintro ⟨e, he⟩
    obtain ⟨p, reason, hp, hrefuses, _⟩ := explains_of_map_error hsys hwf he
    exact ⟨p, reason, hp, hrefuses⟩
  · rintro ⟨p, reason, hp, hrefuses⟩
    cases hmap : ctx.map node member r with
    | ok t => exact absurd hrefuses (allows_of_map hsys hwf hmap p reason hp)
    | error e => exact ⟨e, rfl⟩

/-- A dictionary is mapped as its value is, whatever its key. -/
theorem map_dictionary {ctx : Context} {id : Identity} (hn : ctx.graph.node? id = none)
    (hs : id.builtinShape? = some .dictionary) (node : Node) (member : Member)
    (key value : Reference) :
    ctx.map node member (.named id [key, value]) =
      (ctx.map node member value).map .stringRecord := by
  rw [map, hn, hs]
  rfl

end Render.Context

namespace Shop

/-- A delegate, which has no form. -/
def notify : Definition where
  ns := "Shop"
  name := "Notify"
  kind := .delegate

/-- A controller with an action that takes the delegate. -/
def alertsController : Definition where
  ns := "Shop"
  name := "AlertsController"
  kind := .classType
  controller := true
  actions := [{
    name := "Watch"
    parameters := [{ name := "handler", type := .simple "Shop.Notify" }] }]

/-- The catalog of the two. -/
def alerts : Catalog := ⟨[notify, alertsController], by decide⟩

/-- The graph that the controller leads to. -/
def alertsGraph : Graph := ⟨[.ofDefinition alertsController, .ofDefinition notify]⟩

open Discovery in
private theorem discover_eq_alertsGraph : discover alerts alerts.entryPoints = .ok alertsGraph := by
  rw [discover, visitEntryPoints_eq_run]
  refine (congrArg _ (run_defined _ List.not_mem_nil (by decide) rfl _)).trans ?_
  refine (congrArg _ (run_system _ (by decide) (by decide) _)).trans ?_
  refine (congrArg _ (run_defined _ (by decide) (by decide) rfl _)).trans ?_
  exact congrArg _ (run_nil alerts _)

/-- What the writers of a run on this catalog share. -/
def alertsContext : Render.Context := Generation.context {} alertsGraph

/-- A dictionary of that key and value. -/
def dictionary (key value : Reference) : Reference :=
  .generic "System.Collections.Generic.Dictionary" [key, value]

private theorem wellFormed_dictionary {key value : Reference} (hkey : key.WellFormed)
    (hvalue : value.WellFormed) : (dictionary key value).WellFormed :=
  Reference.wellFormed_of_isSegment
    ["System".toList, "Collections".toList, "Generic".toList, "Dictionary".toList] _ nofun
    (by decide) ⟨hkey, hvalue, trivial⟩

private theorem wellFormed_int : (Reference.simple "System.Int32").WellFormed :=
  Reference.wellFormed_of_isSegment ["System".toList, "Int32".toList] [] nofun (by decide) trivial

/-- A library type that the table does not list, the delegate, and a parameter that the controller
does not have. -/
def refused : List Reference := [.simple "System.IntPtr", .simple "Shop.Notify", .param 9]

private theorem wellFormed_refused : ∀ r ∈ refused, r.WellFormed := by
  refine List.forall_mem_cons.mpr ⟨?_, List.forall_mem_cons.mpr ⟨?_, List.forall_mem_cons.mpr
    ⟨?_, nofun⟩⟩⟩
  · exact Reference.wellFormed_of_isSegment ["System".toList, "IntPtr".toList] [] nofun
      (by decide) trivial
  · exact Reference.wellFormed_of_isSegment ["Shop".toList, "Notify".toList] [] nofun
      (by decide) trivial
  · exact (by decide : 9 < Reference.positionBound)

private theorem refuses_refused : ∀ r ∈ refused, ∃ reason,
    alertsContext.Refuses (.ofDefinition alertsController) r reason := by
  refine List.forall_mem_cons.mpr ⟨?_, List.forall_mem_cons.mpr ⟨?_, List.forall_mem_cons.mpr
    ⟨?_, nofun⟩⟩⟩
  · exact ⟨_, .unlisted (by decide) (by decide)⟩
  · exact ⟨_, .delegate rfl rfl⟩
  · exact ⟨_, .parameter (by decide)⟩

/-- As the value of a dictionary each of the three makes the mapping fail. -/
theorem map_fails_refused_values : discover alerts alerts.entryPoints = .ok alertsContext.graph ∧
    ∀ r ∈ refused, Reference.parse (dictionary (.simple "System.Int32") r).display =
        .ok (dictionary (.simple "System.Int32") r) ∧
      ∃ e, alertsContext.map (.ofDefinition alertsController) (.returned "Watch")
        (dictionary (.simple "System.Int32") r) = .error e := by
  refine ⟨discover_eq_alertsGraph, fun r hr => ?_⟩
  have hwf := wellFormed_dictionary wellFormed_int (wellFormed_refused r hr)
  have hparse := Reference.parse_display hwf
  obtain ⟨reason, hrefuses⟩ := refuses_refused r hr
  have hvalue : ¬ Reference.IsKey (Identity.ofQualified
      "System.Collections.Generic.Dictionary" 2) 1 := fun hkey => absurd hkey.2.2 (by decide)
  refine ⟨hparse,
    (Render.Context.map_fails_iff_refused discover_eq_alertsGraph hparse _ _).1.mpr ?_⟩
  exact ⟨r, reason, .argument rfl hvalue .whole, hrefuses⟩

/-- As the key of a dictionary each of the three is accepted. -/
theorem map_accepts_refused_keys :
    discover alerts alerts.entryPoints = .ok alertsContext.graph ∧
    .ofDefinition alertsController ∈ alertsContext.graph.nodes ∧
    ∀ r ∈ refused, (∃ reason,
        alertsContext.Refuses (.ofDefinition alertsController) r reason) ∧
      Reference.parse (dictionary r (.simple "System.Int32")).display =
        .ok (dictionary r (.simple "System.Int32")) ∧
      alertsContext.map (.ofDefinition alertsController) (.returned "Watch")
        (dictionary r (.simple "System.Int32")) = .ok (.stringRecord (.primitive .number)) := by
  refine ⟨discover_eq_alertsGraph, List.mem_cons_self .., fun r hr => ?_⟩
  have hwf := wellFormed_dictionary (wellFormed_refused r hr) wellFormed_int
  have hshape : (Identity.ofQualified "System.Collections.Generic.Dictionary" 2).builtinShape? =
      some .dictionary := by decide
  exact ⟨refuses_refused r hr, Reference.parse_display hwf,
    Render.Context.map_dictionary rfl hshape _ _ r _⟩

end Shop

end ApiTypings
