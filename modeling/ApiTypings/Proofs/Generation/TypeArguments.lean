import ApiTypings.Proofs.Generation.Imports
import ApiTypings.Proofs.Generation.Output
import ApiTypings.Proofs.Render.Declared

/-!
# Type arguments and type parameters

A discovered type is written with as many type arguments as its identity has parameters, and a
generic parameter is written under the name that the node has for it. Whether a declaration has
these parameters is up to its writer: those of models and of value types declare them, those of
enums and of controllers do not. A generic enum and a generic controller are therefore declared
without parameters that are used elsewhere.
-/

namespace ApiTypings

namespace TypeScript.TypeExpr

mutual

/-- The names in a type expression, each with the number of its type arguments. -/
def uses : TypeExpr → List (String × Nat)
  | primitive _ => []
  | array element => element.uses
  | union alternatives => usesOfAll alternatives
  | record key value => key.uses ++ value.uses
  | ref name => [(name, 0)]
  | generic name args => (name, args.length) :: usesOfAll args

/-- The names in several type expressions with the numbers of their type arguments. -/
def usesOfAll : List TypeExpr → List (String × Nat)
  | [] => []
  | t :: ts => t.uses ++ usesOfAll ts

end

/-- Null uses no type. -/
@[simp] theorem uses_orNull (inner : TypeExpr) : inner.orNull.uses = inner.uses := by
  simp [orNull, uses, usesOfAll]

/-- A type is used with the arguments that it is written with. -/
@[simp] theorem uses_ofName (name : String) (args : List TypeExpr) :
    (ofName name args).uses = (name, args.length) :: usesOfAll args := by
  cases args <;> rfl

end TypeScript.TypeExpr

open TypeScript (TypeExpr Declaration)

namespace Render

/-- The number of type arguments that a name is written with. -/
def Mention.arguments : Mention → Nat
  | type id => id.arity
  | parameter _ => 0
  | date => 0

/-- The name that is written and the number of its type arguments. -/
def Mention.use (m : Mention) : String × Nat := (m.text, m.arguments)

namespace Context

variable {ctx : Context} {node : Node} {member : Member}

/-- What may be missing uses what is there otherwise. -/
theorem uses_nullable (ctx : Context) (inner : TypeExpr) :
    (ctx.nullable inner).uses = inner.uses := by
  rw [nullable]
  split
  · rw [TypeExpr.uses_orNull]
  · rfl

/-- A library type uses what its argument does. -/
theorem uses_wrap (ctx : Context) (shape : BuiltinShape) (argument : TypeExpr) :
    (ctx.wrap shape argument).uses = argument.uses := by
  cases shape <;> first | rfl | exact uses_nullable ctx argument

private theorem usesOfAll_of_forall₂ {args : List Reference} {ts : List TypeExpr}
    (h : List.Forall₂ (fun r t => r.WellFormed → t.uses = (ctx.mentions node r).map Mention.use)
      args ts) (hargs : ∀ r ∈ args, r.WellFormed) :
    TypeExpr.usesOfAll ts = (mentionsOfAll ctx node args).map Mention.use := by
  induction h with
  | nil => rfl
  | cons huses _ ih =>
    rw [List.forall_mem_cons] at hargs
    rw [TypeExpr.usesOfAll, mentionsOfAll, List.map_append, huses hargs.1, ih hargs.2]

/-- The names of a mapped reference have the type arguments of what they stand for. -/
theorem uses_map {r : Reference} {t : TypeExpr} (hr : r.WellFormed)
    (h : ctx.map node member r = .ok t) : t.uses = (ctx.mentions node r).map Mention.use := by
  refine map_induction
    (motive := fun r t => r.WellFormed → t.uses = (ctx.mentions node r).map Mention.use)
    ?param ?array ?nullable ?type ?plain ?done ?argument h hr
  case param =>
    intro position name hp _
    simp [mentions, hp, TypeExpr.uses, Mention.use, Mention.text, Mention.arguments]
  case array => exact fun _ _ ih => ih
  case nullable =>
    intro inner t ih hr
    rw [uses_nullable, ih hr, mentions]
  case type =>
    intro id args target ts hn _ ih hr
    have hargs := Reference.allWellFormed_iff.mp hr.2.2
    rw [TypeExpr.uses_ofName, usesOfAll_of_forall₂ ih hargs, mentions, hn, ← ih.length_eq, ← hr.1]
    rfl
  case plain =>
    intro id args shape t hn hs ht _
    rw [mentions_library hn hs]
    cases shape <;> cases ht <;> rfl
  case done =>
    intro id hn hs _
    rw [mentions_library hn hs]
    rfl
  case argument =>
    intro id args shape position r t hn hs hposition hget ih hr
    have hwf := Reference.allWellFormed_iff.mp hr.2.2 r (List.mem_of_getElem? hget)
    rw [mentions_argument hn hs hposition hget, uses_wrap, ih hwf]

end Context

/-- The writer of the node declares the generic parameters of the node. -/
def DeclaresParameters (node : Node) : Prop := node.controller = false ∧ node.kind ≠ .enum

private theorem declaredParameters_of_declaresParameters {node : Node}
    (h : DeclaresParameters node) :
    declaredParameters node = node.genericParameters := by
  rw [declaredParameters, rule_eq, h.1]
  cases node.kind.isValueType <;> simp [h.2]

private theorem declaredParameters_eq_nil {node : Node} (h : ¬ DeclaresParameters node) :
    declaredParameters node = [] := by
  rw [declaredParameters, rule_eq]
  cases hc : node.controller with
  | true => rfl
  | false =>
    obtain hk : node.kind = .enum := by simpa [DeclaresParameters, hc] using h
    simp [hk]

end Render

namespace Generation

open Render

/-- The declaration of a type among the rendered ones. -/
def DeclarationOf (rendered : List Rendered) (id : Identity) (d : Declaration) : Prop :=
  ∃ x ∈ rendered, x.identity = id ∧ x.file.declarations = [d]

/-- What a name in a declaration stands for is closed: the declaration of a type has as many type
parameters as the type is written with arguments, and a parameter is one of the declaration that
it is written in. -/
def Closed (rendered : List Rendered) (d : Declaration) : Mention → Prop
  | .type id =>
    ∃ e, DeclarationOf rendered id e ∧ e.typeParams.length = (Mention.type id).arguments
  | .parameter name => name ∈ d.typeParams
  | .date => True

/-- A type without parameters or one whose writer declares them, or a parameter of such a type. -/
def Declarable (g : Graph) (node : Node) : Mention → Prop
  | .type id => id.arity = 0 ∨ ∃ target, g.node? id = some target ∧ DeclaresParameters target
  | .parameter _ => DeclaresParameters node
  | .date => True

namespace Succeeds

variable {style : Style} {c : Catalog} {g : Graph} {rendered : List Rendered}
  (h : Succeeds style c g rendered)

include h

/-- A discovered type has one declaration, the one of its node. -/
theorem exists_declarationOf {target : Node} (hn : target ∈ g.nodes) :
    ∃ d, DeclarationOf rendered target.identity d ∧ (context style g).Declares target d ∧
      ∀ e, DeclarationOf rendered target.identity e → e = d := by
  obtain ⟨x, hx, hrender⟩ := exists_mem_of_mapM h.rendered hn
  obtain ⟨d, hd, hdeclares⟩ := Context.exists_declares_of_render hrender
  refine ⟨d, ⟨x, hx, identity_of_render hrender, hd⟩, hdeclares, ?_⟩
  rintro e ⟨y, hy, hid, he⟩
  obtain ⟨m, hm, hrender'⟩ := exists_of_mem_mapM h.rendered hy
  have hidentity : m.identity = target.identity := (identity_of_render hrender').symm.trans hid
  obtain rfl := List.inj_on_of_nodup_map (nodup_identities h.discovered) hm hn hidentity
  rw [hrender] at hrender'
  cases hrender'
  rw [hd] at he
  cases he
  rfl

/-- A mention is closed when the writers concerned declare parameters. -/
theorem closed_iff_declarable {n : Node} {d : Declaration} (hd : (context style g).Declares n d)
    {r : Reference} {member : Member} {t : TypeExpr}
    (hmap : (context style g).map n member r = .ok t) {m : Mention}
    (hm : m ∈ (context style g).mentions n r) : Closed rendered d m ↔ Declarable g n m := by
  cases m with
  | date => exact Iff.rfl
  | parameter name =>
    rw [Closed, Declarable, hd.typeParams]
    by_cases hn : DeclaresParameters n
    · rw [declaredParameters_of_declaresParameters hn]
      exact iff_of_true (Context.mem_genericParameters_of_mem_mentions hmap hm) hn
    · rw [declaredParameters_eq_nil hn]
      exact iff_of_false List.not_mem_nil hn
  | type id =>
    have hcontains : g.contains id = true := (Context.mem_identities_of_mem_mentions hm).2
    obtain ⟨target, htarget⟩ := Option.isSome_iff_exists.mp hcontains
    have hmem : target ∈ g.nodes := List.mem_of_find?_eq_some htarget
    obtain rfl : target.identity = id := by simpa using List.find?_some htarget
    obtain ⟨e, he, hdeclares, hunique⟩ := h.exists_declarationOf hmem
    have hlength := Node.length_genericParameters_of_resolve?
      (resolve?_of_mem_nodes h.discovered hmem)
    have hclosed : Closed rendered d (.type target.identity) ↔
        (declaredParameters target).length = target.identity.arity := by
      rw [← hdeclares.typeParams]
      refine ⟨?_, fun hlen => ⟨e, he, hlen⟩⟩
      rintro ⟨e', he', hlen⟩
      exact hunique e' he' ▸ hlen
    rw [hclosed, Declarable, htarget]
    by_cases hp : DeclaresParameters target
    · rw [declaredParameters_of_declaresParameters hp]
      exact iff_of_true hlength (.inr ⟨target, rfl, hp⟩)
    · rw [declaredParameters_eq_nil hp, List.length_nil, eq_comm]
      refine ⟨.inl, ?_⟩
      rintro (harity | ⟨k, hk, hparams⟩)
      · exact harity
      · cases hk
        exact absurd hparams hp

end Succeeds

/-- In the files of a run on a catalog whose references were read from text, the names of the mapped
references are written with the type arguments of what they stand for. Such a name is closed by
the declarations exactly when it stands for a type without parameters, for a type that is
declared with its parameters, or for a parameter of a type that is: it is not for a generic enum
or a generic controller. -/
theorem mentions_closed_iff {schedule : Schedule} {style : Style} {c : Catalog} {report : Report}
    {files : List Artifact} (hc : c.Parsed) (h : run schedule style c = .ok (report, files)) :
    ∃ g rendered, Succeeds style c g rendered ∧
      files = (sources style rendered).map (Source.artifact style) ∧
      ∀ x ∈ rendered, ∃ n ∈ g.nodes, ∃ d, x.identity = n.identity ∧ x.file.declarations = [d] ∧
        (context style g).Declares n d ∧
        ∀ p ∈ (context style g).mapped n, ∃ t, (context style g).map n p.2 p.1 = .ok t ∧
          t.uses = ((context style g).mentions n p.1).map Mention.use ∧
          ∀ m ∈ (context style g).mentions n p.1, Closed rendered d m ↔ Declarable g n m := by
  obtain ⟨g, rendered, hs, rfl⟩ := succeeds_of_run h
  refine ⟨g, rendered, hs, (map_artifact_sources style rendered).symm, fun x hx => ?_⟩
  obtain ⟨n, hn, hrender⟩ := exists_of_mem_mapM hs.rendered hx
  obtain ⟨d, hd, hdeclares⟩ := Context.exists_declares_of_render hrender
  refine ⟨n, hn, d, identity_of_render hrender, hd, hdeclares, fun p hp => ?_⟩
  obtain ⟨t, _, ht⟩ := hdeclares.mapped p hp
  have hwf := wellFormed_of_mem_references hc (resolve?_of_mem_nodes hs.discovered hn)
    (Context.mem_references_of_mem_mapped hp)
  exact ⟨t, ht, Context.uses_map hwf ht, fun m hm => hs.closed_iff_declarable hdeclares ht hm⟩

end Generation

/-! ## A catalog of pages -/

namespace Shop

open Generation (context run Succeeds DeclarationOf Closed Declarable)

/-- A generic controller, whose action returns a page of its parameter. -/
def pagesController : Definition where
  ns := "Shop"
  name := "PagesController"
  kind := .classType
  genericParameters := ["T"]
  controller := true
  actions := [{ name := "First", returns := .generic "Shop.Page" [.param 0] }]

/-- A generic model, with a dictionary whose keys are products and with a generic enum. -/
def page : Definition where
  ns := "Shop"
  name := "Page"
  kind := .classType
  genericParameters := ["T"]
  properties := [
    { name := "Items", type := .array (.param 0) },
    { name := "Stock", type :=
        .generic "System.Collections.Generic.Dictionary" [.simple "Shop.Product", .param 0] },
    { name := "Mode", type := .generic "Shop.Mode" [.param 0] }]

/-- A model without properties. -/
def product : Definition where
  ns := "Shop"
  name := "Product"
  kind := .classType

/-- A generic enum. -/
def mode : Definition where
  ns := "Shop"
  name := "Mode"
  kind := .enum
  genericParameters := ["T"]

/-- The catalog of the four. -/
def pages : Catalog := ⟨[pagesController, page, product, mode], by decide⟩

/-- The graph that the controller leads to. -/
def pagesGraph : Graph :=
  ⟨[.ofDefinition pagesController, .ofDefinition page, .ofDefinition product, .ofDefinition mode]⟩

open Discovery in
/-- The graph of the pages. -/
theorem discover_eq_pagesGraph : discover pages pages.entryPoints = .ok pagesGraph := by
  rw [discover, visitEntryPoints_eq_run]
  refine (congrArg _ (run_defined _ List.not_mem_nil (by decide) rfl _)).trans ?_
  refine (congrArg _ (run_defined _ (by decide) (by decide) rfl _)).trans ?_
  refine (congrArg _ (run_system _ (by decide) (by decide) _)).trans ?_
  refine (congrArg _ (run_defined _ (by decide) (by decide) rfl _)).trans ?_
  refine (congrArg _ (run_defined _ (by decide) (by decide) rfl _)).trans ?_
  exact congrArg _ (run_nil pages _)

/-- The references of the pages are well-formed. -/
theorem parsed_pages : pages.Parsed := by
  have hparam : (Reference.param 0).WellFormed := (by decide : 0 < Reference.positionBound)
  have hpage := Reference.wellFormed_of_isSegment ["Shop".toList, "Page".toList] [.param 0] nofun
    (by decide) ⟨hparam, trivial⟩
  have hproduct := Reference.wellFormed_of_isSegment ["Shop".toList, "Product".toList] [] nofun
    (by decide) trivial
  have hstock := Reference.wellFormed_of_isSegment
    ["System".toList, "Collections".toList, "Generic".toList, "Dictionary".toList]
    [.simple "Shop.Product", .param 0] nofun (by decide) ⟨hproduct, hparam, trivial⟩
  have hmode := Reference.wellFormed_of_isSegment ["Shop".toList, "Mode".toList] [.param 0] nofun
    (by decide) ⟨hparam, trivial⟩
  have hproperties : ∀ r ∈ page.references, r.WellFormed :=
    List.forall_mem_cons.mpr ⟨hparam, List.forall_mem_cons.mpr ⟨hstock,
      List.forall_mem_cons.mpr ⟨hmode, nofun⟩⟩⟩
  refine Catalog.parsed_of_wellFormed ?_
  exact List.forall_mem_cons.mpr ⟨List.forall_mem_cons.mpr ⟨hpage, nofun⟩,
    List.forall_mem_cons.mpr ⟨hproperties, List.forall_mem_cons.mpr ⟨nofun,
      List.forall_mem_cons.mpr ⟨nofun, nofun⟩⟩⟩⟩

private theorem exists_succeeds_pages (style : Style) :
    ∃ rendered, Succeeds style pages pagesGraph rendered := by
  refine Generation.exists_succeeds discover_eq_pagesGraph rfl ?_
  refine List.forall_mem_cons.mpr ⟨?_, List.forall_mem_cons.mpr ⟨⟨_, rfl⟩,
    List.forall_mem_cons.mpr ⟨⟨_, rfl⟩, List.forall_mem_cons.mpr ⟨⟨_, rfl⟩, nofun⟩⟩⟩⟩
  refine Render.Context.exists_render_of_not_mem ?_ (by decide)
  exact List.forall_mem_cons.mpr ⟨⟨_, rfl⟩, nofun⟩

/-- The page is discovered. -/
theorem page_mem_nodes : Node.ofDefinition page ∈ pagesGraph.nodes :=
  List.mem_cons_of_mem _ (List.mem_cons_self ..)

/-- The page maps the type of its mode. -/
theorem mode_mem_mapped : (.generic "Shop.Mode" [.param 0], .property "Mode") ∈
    (context {} pagesGraph).mapped (.ofDefinition page) :=
  List.mem_cons_of_mem _ (List.mem_cons_of_mem _ (List.mem_cons_self ..))

/-- The run on the pages succeeds, and its names have the type arguments of what they stand for. -/
theorem mentions_closed_iff_pages : pages.Parsed ∧ ∃ report files,
    run .inOrder {} pages = .ok (report, files) ∧ ∃ g rendered,
      Succeeds {} pages g rendered ∧ ∀ x ∈ rendered, ∃ n ∈ g.nodes, ∃ d,
        x.file.declarations = [d] ∧ ∀ p ∈ (context {} g).mapped n,
          ∀ m ∈ (context {} g).mentions n p.1,
            Closed rendered d m ↔ Declarable g n m := by
  obtain ⟨rendered, hs⟩ := exists_succeeds_pages {}
  have hrun := hs.run_eq .inOrder
  obtain ⟨g, rendered', hs', _, hall⟩ := Generation.mentions_closed_iff parsed_pages hrun
  refine ⟨parsed_pages, _, _, hrun, g, rendered', hs', fun x hx => ?_⟩
  obtain ⟨n, hn, d, _, hd, _, hmapped⟩ := hall x hx
  refine ⟨n, hn, d, hd, fun p hp => ?_⟩
  obtain ⟨_, _, _, hclosed⟩ := hmapped p hp
  exact hclosed

/-- In any run on the pages, the generic controller is written with a parameter that its declaration
does not have, and the generic enum with an argument for a parameter that its declaration does not
have. -/
theorem not_closed_pages : pages.Parsed ∧ ∃ report files,
    (∀ schedule, run schedule {} pages = .ok (report, files)) ∧ ∃ rendered,
      Succeeds {} pages pagesGraph rendered ∧
      (∃ d, DeclarationOf rendered pagesController.identity d ∧
        ∃ p ∈ (context {} pagesGraph).mapped (.ofDefinition pagesController),
          .parameter "T" ∈
            (context {} pagesGraph).mentions (.ofDefinition pagesController) p.1 ∧
          ¬ Closed rendered d (.parameter "T")) ∧
      (∃ d, DeclarationOf rendered page.identity d ∧
        ∃ p ∈ (context {} pagesGraph).mapped (.ofDefinition page),
          .type mode.identity ∈ (context {} pagesGraph).mentions (.ofDefinition page) p.1 ∧
          ¬ Closed rendered d (.type mode.identity)) := by
  obtain ⟨rendered, hs⟩ := exists_succeeds_pages {}
  refine ⟨parsed_pages, _, _, hs.run_eq, rendered, hs, ?_, ?_⟩
  · obtain ⟨d, hd, hdeclares, _⟩ := hs.exists_declarationOf (List.mem_cons_self ..)
    have hm : Render.Mention.parameter "T" ∈ (context {} pagesGraph).mentions
        (.ofDefinition pagesController) (.generic "Shop.Page" [.param 0]) := by decide
    obtain ⟨_, _, hmap⟩ := hdeclares.mapped _ (List.mem_cons_self ..)
    refine ⟨d, hd, _, List.mem_cons_self .., hm, ?_⟩
    rw [hs.closed_iff_declarable hdeclares hmap hm]
    rintro ⟨hcontroller, _⟩
    cases hcontroller
  · obtain ⟨d, hd, hdeclares, _⟩ := hs.exists_declarationOf page_mem_nodes
    have hm : Render.Mention.type mode.identity ∈ (context {} pagesGraph).mentions
        (.ofDefinition page) (.generic "Shop.Mode" [.param 0]) := by decide
    obtain ⟨_, _, hmap⟩ := hdeclares.mapped _ mode_mem_mapped
    refine ⟨d, hd, _, mode_mem_mapped, hm, ?_⟩
    rw [hs.closed_iff_declarable hdeclares hmap hm]
    rintro (harity | ⟨target, htarget, _, henum⟩)
    · cases harity
    · cases htarget
      exact henum rfl

end Shop

end ApiTypings
