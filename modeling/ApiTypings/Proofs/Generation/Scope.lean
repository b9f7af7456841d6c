import ApiTypings.Proofs.Generation.DeclaredNames

/-!
# What the names in a file stand for

The names in the declaration of a type come from three sources: the types that the file declares or
imports, the generic parameters of the type, and the language itself. The first are kept apart from
each other by the check of file names and from the reserved words by the way they are made. Nothing
keeps them apart from the other two sources: a discovered type may be called like a generic
parameter or like `Date`, and then both are written as the same name.
-/

namespace ApiTypings

namespace TypeScript.TypeExpr

mutual

/-- The words in a type expression: its names and those that belong to the language. -/
def words : TypeExpr → List String
  | primitive type => [type.text]
  | array element => element.words
  | union alternatives => wordsOfAll alternatives
  | record key value => "Record" :: (key.words ++ value.words)
  | ref name => [name]
  | generic name args => name :: wordsOfAll args

/-- The words in several type expressions. -/
def wordsOfAll : List TypeExpr → List String
  | [] => []
  | t :: ts => t.words ++ wordsOfAll ts

end

/-- The words that are written for library types and for results. -/
def languageWords : List String :=
  ["Date", "Record", "Promise", "string", "number", "boolean", "unknown", "void", "null"]

private theorem text_mem_languageWords (type : Primitive) : type.text ∈ languageWords := by
  cases type <;> decide

mutual

/-- A word that is no name belongs to the language. -/
theorem mem_names_of_mem_words {word : String} :
    ∀ t : TypeExpr, word ∈ t.words → word ∈ t.names ∨ word ∈ languageWords
  | primitive type, h => .inr (List.mem_singleton.mp h ▸ text_mem_languageWords type)
  | array element, h => mem_names_of_mem_words element h
  | union alternatives, h => mem_namesOfAll_of_mem_wordsOfAll alternatives h
  | record key value, h => by
    rw [words, List.mem_cons, List.mem_append] at h
    rw [names, List.mem_append]
    rcases h with rfl | h | h
    · exact .inr (by decide)
    · exact (mem_names_of_mem_words key h).imp_left .inl
    · exact (mem_names_of_mem_words value h).imp_left .inr
  | ref _, h => .inl h
  | generic name args, h => by
    rw [words, List.mem_cons] at h
    rw [names, List.mem_cons]
    rcases h with rfl | h
    · exact .inl (.inl rfl)
    · exact (mem_namesOfAll_of_mem_wordsOfAll args h).imp_left .inr

private theorem mem_namesOfAll_of_mem_wordsOfAll {word : String} :
    ∀ ts : List TypeExpr, word ∈ wordsOfAll ts → word ∈ namesOfAll ts ∨ word ∈ languageWords
  | [], h => .inl h
  | t :: ts, h => by
    rw [wordsOfAll, List.mem_append] at h
    rw [namesOfAll, List.mem_append]
    rcases h with h | h
    · exact (mem_names_of_mem_words t h).imp_left .inl
    · exact (mem_namesOfAll_of_mem_wordsOfAll ts h).imp_left .inr

end

/-- The whole text of a type expression that is a single word. -/
def bareName? : TypeExpr → Option String
  | primitive type => some type.text
  | ref name => some name
  | _ => none

end TypeScript.TypeExpr

open TypeScript (TypeExpr Declaration)

namespace Render

/-- The types that a file declares or imports. -/
def Rendered.scope (x : Rendered) : List Identity := x.identity :: x.imports

namespace Context

variable {ctx : Context} {node : Node} {member : Member}

/-- A reference that is written as a bare name mentions what the name stands for, unless the name is
a word of the language. -/
theorem mentions_of_bareName {r : Reference} {t : TypeExpr} {name : String}
    (h : ctx.map node member r = .ok t) (hname : t.bareName? = some name) :
    (∃ m, ctx.mentions node r = [m] ∧ m.text = name) ∨
      (ctx.mentions node r = [] ∧ ∃ type : TypeScript.Primitive, type.text = name) := by
  have hnames := names_map ctx node member r t h
  cases t with
  | array _ | union _ | record _ _ | generic _ _ => cases hname
  | primitive type =>
    cases hname
    exact .inr ⟨List.map_eq_nil_iff.mp hnames.symm, type, rfl⟩
  | ref _ =>
    cases hname
    exact .inl (List.map_eq_singleton_iff.mp hnames.symm)

section Rendered

variable {x : Rendered} (h : render ctx node = .ok x)

include h

/-- No identity is in scope twice. -/
theorem nodup_scope : x.scope.Nodup := by
  obtain ⟨_, _, _, rfl⟩ := eq_file_of_render h
  refine List.nodup_cons.mpr ⟨fun hmem => ?_, nodup_eraseDups _⟩
  exact (mem_imported_iff.mp hmem).2.1 rfl

/-- Only discovered types are in scope. -/
theorem mem_identities_of_mem_scope (hn : node ∈ ctx.graph.nodes) {id : Identity}
    (hid : id ∈ x.scope) : id ∈ ctx.graph.identities := by
  obtain ⟨_, _, _, rfl⟩ := eq_file_of_render h
  rcases List.mem_cons.mp hid with rfl | hid
  · exact List.mem_map_of_mem hn
  · exact Graph.contains_iff.mp (mem_imported_iff.mp hid).2.2

variable {p : Reference × Member} (hp : p ∈ ctx.mapped node)

include hp

/-- A type that a reference writes is declared or imported. -/
theorem mem_scope_of_mem_mentions {id : Identity} (hid : .type id ∈ ctx.mentions node p.1) :
    id ∈ x.scope := by
  obtain ⟨hmem, hcontains⟩ := mem_identities_of_mem_mentions hid
  obtain ⟨_, _, _, rfl⟩ := eq_file_of_render h
  by_cases hown : id = node.identity
  · exact List.mem_cons.mpr (.inl hown)
  · exact List.mem_cons_of_mem _
      (mem_imported_iff.mpr ⟨⟨p.1, List.mem_map_of_mem hp, hmem⟩, hown, hcontains⟩)

/-- The words of a mapped reference are those of types in scope, of parameters and of the
language. -/
theorem source_of_mem_words {t : TypeExpr} (ht : ctx.map node p.2 p.1 = .ok t) {word : String}
    (hword : word ∈ t.words) : word ∈ x.scope.map Identity.declaredName ∨
      word ∈ node.genericParameters ∨ word ∈ TypeExpr.languageWords := by
  rcases TypeExpr.mem_names_of_mem_words t hword with hname | hlanguage
  · rw [names_map ctx node p.2 p.1 t ht] at hname
    obtain ⟨m, hm, rfl⟩ := List.mem_map.mp hname
    cases m with
    | type id => exact .inl (List.mem_map_of_mem (mem_scope_of_mem_mentions h hp hm))
    | parameter name => exact .inr (.inl (mem_genericParameters_of_mem_mentions ht hm))
    | date => exact .inr (.inr (by decide))
  · exact .inr (.inr hlanguage)

end Rendered

/-- What the names in the declaration of a node stand for. -/
structure NamesStand (ctx : Context) (node : Node) (x : Rendered) (d : Declaration) : Prop where
  /-- Two types in scope have two names. -/
  distinct : (x.scope.map Identity.declaredName).Nodup
  unreserved : ∀ id ∈ x.scope, id.declaredName ∉ TypeScript.reservedWords
  /-- Every word has one of the three sources or is a name of the contract. -/
  source : ∀ t ∈ d.types, ∀ word ∈ t.words, word ∈ x.scope.map Identity.declaredName ∨
    word ∈ node.genericParameters ∨ word ∈ TypeExpr.languageWords ∨
      word ∈ [contractName, requestConfigName]
  /-- A type that is written is in scope. -/
  inScope : ∀ p ∈ ctx.mapped node, ∀ id, .type id ∈ ctx.mentions node p.1 → id ∈ x.scope
  /-- The name of a type that is written stands for another type nowhere; what else it may stand
  for is a generic parameter or the date type. -/
  mentioned : ∀ p ∈ ctx.mapped node, ∀ id, .type id ∈ ctx.mentions node p.1 →
    ∀ q ∈ ctx.mapped node, ∀ m ∈ ctx.mentions node q.1, m.text = id.declaredName →
      m = .type id ∨ (m = .parameter id.declaredName ∧ id.declaredName ∈ node.genericParameters) ∨
        (m = .date ∧ id.declaredName = "Date")
  /-- Two references that are written as the same bare name, one of which denotes a discovered type,
  denote the same type, unless the name is that of a generic parameter or a word of the language
  that the other one is written with. -/
  bare : ∀ p ∈ ctx.mapped node, ∀ q ∈ ctx.mapped node, ∀ t u name id,
    ctx.map node p.2 p.1 = .ok t → ctx.map node q.2 q.1 = .ok u →
    t.bareName? = some name → u.bareName? = some name → ctx.mentions node p.1 = [.type id] →
      ctx.mentions node q.1 = [.type id] ∨
      (ctx.mentions node q.1 = [.parameter name] ∧ name ∈ node.genericParameters) ∨
      (ctx.mentions node q.1 = [.date] ∧ name = "Date") ∨
      (ctx.mentions node q.1 = [] ∧ name ∈ ["string", "number", "boolean", "unknown"])

end Context

end Render

namespace Generation

open Render (Context Mention Rendered)

namespace Succeeds

variable {style : Style} {c : Catalog} {g : Graph} {rendered : List Rendered}
  (h : Succeeds style c g rendered) {n : Node} {x : Rendered} (hn : n ∈ g.nodes)
  (hrender : Render.render (context style g) n = .ok x)

include h hn hrender

/-- Two types in scope have two names, since the check of file names has passed. -/
theorem nodup_scope_names : (x.scope.map Identity.declaredName).Nodup := by
  refine List.Nodup.map_on (fun a ha b hb heq => ?_) (Context.nodup_scope hrender)
  exact h.eq_of_declaredName (Context.mem_identities_of_mem_scope hrender hn ha)
    (Context.mem_identities_of_mem_scope hrender hn hb) heq

/-- Two discovered types are never written under one name. -/
theorem eq_of_text_eq {p q : Reference × Member} (hp : p ∈ (context style g).mapped n)
    (hq : q ∈ (context style g).mapped n) {a b : Identity}
    (ha : .type a ∈ (context style g).mentions n p.1)
    (hb : .type b ∈ (context style g).mentions n q.1)
    (htext : a.declaredName = b.declaredName) : a = b := by
  have hscope := h.nodup_scope_names hn hrender
  exact List.inj_on_of_nodup_map hscope (Context.mem_scope_of_mem_mentions hrender hp ha)
    (Context.mem_scope_of_mem_mentions hrender hq hb) htext

/-- What else the name of a discovered type stands for is a generic parameter or the date type. -/
theorem eq_type_of_text_eq {p q : Reference × Member} (hp : p ∈ (context style g).mapped n)
    (hq : q ∈ (context style g).mapped n) {u : TypeExpr}
    (hu : (context style g).map n q.2 q.1 = .ok u) {id : Identity} {m : Mention}
    (hid : .type id ∈ (context style g).mentions n p.1)
    (hm : m ∈ (context style g).mentions n q.1) (htext : m.text = id.declaredName) :
    m = .type id ∨ (m = .parameter id.declaredName ∧ id.declaredName ∈ n.genericParameters) ∨
      (m = .date ∧ id.declaredName = "Date") := by
  cases m with
  | type other => exact .inl (congrArg _ (h.eq_of_text_eq hn hrender hq hp hm hid htext))
  | parameter name =>
    obtain rfl : name = id.declaredName := htext
    exact .inr (.inl ⟨rfl, Context.mem_genericParameters_of_mem_mentions hu hm⟩)
  | date => exact .inr (.inr ⟨rfl, htext.symm⟩)

/-- What else a reference denotes that is written as the bare name of a discovered type. -/
theorem mentions_of_bareName_eq {p q : Reference × Member} (hp : p ∈ (context style g).mapped n)
    (hq : q ∈ (context style g).mapped n) {t u : TypeExpr} {name : String} {id : Identity}
    (ht : (context style g).map n p.2 p.1 = .ok t) (hu : (context style g).map n q.2 q.1 = .ok u)
    (htname : t.bareName? = some name) (huname : u.bareName? = some name)
    (hid : (context style g).mentions n p.1 = [.type id]) :
    (context style g).mentions n q.1 = [.type id] ∨
      ((context style g).mentions n q.1 = [.parameter name] ∧ name ∈ n.genericParameters) ∨
      ((context style g).mentions n q.1 = [.date] ∧ name = "Date") ∨
      ((context style g).mentions n q.1 = [] ∧
        name ∈ ["string", "number", "boolean", "unknown"]) := by
  obtain rfl : id.declaredName = name := by
    rcases Context.mentions_of_bareName ht htname with ⟨m, hm, htext⟩ | ⟨hnil, _⟩
    · rw [hid] at hm
      cases hm
      exact htext
    · rw [hid] at hnil
      cases hnil
  rcases Context.mentions_of_bareName hu huname with ⟨m, hm, htext⟩ | ⟨hnil, type, htype⟩
  · have hmem : m ∈ (context style g).mentions n q.1 := hm ▸ List.mem_singleton_self m
    have hidmem : .type id ∈ (context style g).mentions n p.1 := hid ▸ List.mem_singleton_self _
    rcases h.eq_type_of_text_eq hn hrender hp hq hu hidmem hmem htext with
      rfl | ⟨rfl, hparam⟩ | ⟨rfl, hdate⟩
    · exact .inl hm
    · exact .inr (.inl ⟨hm, hparam⟩)
    · exact .inr (.inr (.inl ⟨hm, hdate⟩))
  · refine .inr (.inr (.inr ⟨hnil, ?_⟩))
    have hword := id.declaredName_not_mem_reservedWords
    rw [← htype] at hword ⊢
    cases type with
    | string | number | boolean | unknown => decide
    | null | void => exact absurd (by decide) hword

/-- In each declaration of a successful run every name stands for one thing. -/
theorem namesStand {d : Declaration} (hd : (context style g).Declares n d) :
    (context style g).NamesStand n x d where
  distinct := h.nodup_scope_names hn hrender
  unreserved id _ := id.declaredName_not_mem_reservedWords
  source t htype word hword := by
    have hsource : ∀ p ∈ (context style g).mapped n, ∀ t,
        (context style g).map n p.2 p.1 = .ok t → ∀ word ∈ t.words,
        word ∈ x.scope.map Identity.declaredName ∨ word ∈ n.genericParameters ∨
          word ∈ TypeExpr.languageWords ∨ word ∈ [contractName, requestConfigName] :=
      fun p hp t ht word hword => (Context.source_of_mem_words hrender hp ht hword).imp_right
        fun hs => hs.imp_right .inl
    cases hd.written t htype with
    | contract => exact .inr (.inr (.inr (List.mem_cons.mpr (.inl (List.mem_singleton.mp hword)))))
    | requestConfig => exact .inr (.inr (.inr (List.mem_cons_of_mem _ hword)))
    | mapped hp ht => exact hsource _ hp _ ht word hword
    | promise hp ht =>
      rw [TypeExpr.words, TypeExpr.wordsOfAll, TypeExpr.wordsOfAll, List.append_nil,
        List.mem_cons] at hword
      rcases hword with rfl | hword
      · exact .inr (.inr (.inl (by decide)))
      · exact hsource _ hp _ ht word hword
  inScope p hp id hid := Context.mem_scope_of_mem_mentions hrender hp hid
  mentioned p hp id hid q hq m hm htext := by
    obtain ⟨u, _, hu⟩ := hd.mapped q hq
    exact h.eq_type_of_text_eq hn hrender hp hq hu hid hm htext
  bare p hp q hq t u name id ht hu htname huname hid :=
    h.mentions_of_bareName_eq hn hrender hp hq ht hu htname huname hid

end Succeeds

/-- In the file of each type of a run, the names that are written stand for what was mapped as far
as the types in scope are concerned: no two of these share a name, and none is called like a
reserved word. The name of such a type may be that of a generic parameter of the declaration or a
word of the language as well; no other two references are written as the same bare name when one
of them denotes a discovered type. -/
theorem namesStand_of_run {schedule : Schedule} {style : Style} {c : Catalog} {report : Report}
    {files : List Artifact} (h : run schedule style c = .ok (report, files)) :
    ∃ g rendered, Succeeds style c g rendered ∧
      files = (sources style rendered).map (Source.artifact style) ∧
      ∀ x ∈ rendered, ∃ n ∈ g.nodes, ∃ d, x.identity = n.identity ∧ x.file.declarations = [d] ∧
        (context style g).Declares n d ∧ (context style g).NamesStand n x d := by
  obtain ⟨g, rendered, hs, rfl⟩ := succeeds_of_run h
  refine ⟨g, rendered, hs, (map_artifact_sources style rendered).symm, fun x hx => ?_⟩
  obtain ⟨n, hn, hrender⟩ := exists_of_mem_mapM hs.rendered hx
  obtain ⟨d, hd, hdeclares⟩ := Context.exists_declares_of_render hrender
  exact ⟨n, hn, d, Render.identity_of_render hrender, hd, hdeclares,
    hs.namesStand hn hrender hdeclares⟩

end Generation

/-! ## A catalog of visits -/

namespace Shop

open Generation (context run Succeeds)

/-- A controller whose action returns the visit of a guest. -/
def visitsController : Definition where
  ns := "Shop"
  name := "VisitsController"
  kind := .classType
  controller := true
  actions := [{ name := "Next", returns := .generic "Shop.Visit" [.simple "Shop.Guest"] }]

/-- A generic model whose parameter is called like a type, and which uses a type that is called like
the date type of the language. -/
def visit : Definition where
  ns := "Shop"
  name := "Visit"
  kind := .classType
  genericParameters := ["Guest"]
  properties := [
    { name := "Host", type := .param 0 },
    { name := "Visitor", type := .simple "Shop.Guest" },
    { name := "Day", type := .simple "Shop.Date" },
    { name := "Booked", type := .simple "System.DateTime" }]

/-- A model without properties. -/
def guest : Definition where
  ns := "Shop"
  name := "Guest"
  kind := .classType

/-- Another one. -/
def date : Definition where
  ns := "Shop"
  name := "Date"
  kind := .classType

/-- The catalog of the four. -/
def visits : Catalog := ⟨[visitsController, visit, guest, date], by decide⟩

/-- The graph that the controller leads to. -/
def visitsGraph : Graph :=
  ⟨[.ofDefinition visitsController, .ofDefinition visit, .ofDefinition guest, .ofDefinition date]⟩

open Discovery in
private theorem discover_eq_visitsGraph : discover visits visits.entryPoints = .ok visitsGraph := by
  rw [discover, visitEntryPoints_eq_run]
  refine (congrArg _ (run_defined _ List.not_mem_nil (by decide) rfl _)).trans ?_
  refine (congrArg _ (run_defined _ (by decide) (by decide) rfl _)).trans ?_
  refine (congrArg _ (run_defined _ (by decide) (by decide) rfl _)).trans ?_
  refine (congrArg _ (run_defined _ (by decide) (by decide) rfl _)).trans ?_
  refine (congrArg _ (run_system _ (by decide) (by decide) _)).trans ?_
  refine (congrArg _ (run_visited _ (by decide) _)).trans ?_
  exact congrArg _ (run_nil visits _)

private theorem exists_succeeds_visits (style : Style) :
    ∃ rendered, Succeeds style visits visitsGraph rendered := by
  refine Generation.exists_succeeds discover_eq_visitsGraph rfl ?_
  refine List.forall_mem_cons.mpr ⟨?_, List.forall_mem_cons.mpr ⟨⟨_, rfl⟩,
    List.forall_mem_cons.mpr ⟨⟨_, rfl⟩, List.forall_mem_cons.mpr ⟨⟨_, rfl⟩, nofun⟩⟩⟩⟩
  refine Render.Context.exists_render_of_not_mem ?_ (by decide)
  exact List.forall_mem_cons.mpr ⟨⟨_, rfl⟩, nofun⟩

/-- The run on the visits succeeds, and the names in its files stand for what they can. -/
theorem namesStand_visits : ∃ report files, run .inOrder {} visits = .ok (report, files) ∧
    ∃ g rendered, Succeeds {} visits g rendered ∧ ∀ x ∈ rendered, ∃ n ∈ g.nodes, ∃ d,
      x.file.declarations = [d] ∧ (context {} g).NamesStand n x d := by
  obtain ⟨rendered, hs⟩ := exists_succeeds_visits {}
  have hrun := hs.run_eq .inOrder
  obtain ⟨g, rendered', hs', _, hall⟩ := Generation.namesStand_of_run hrun
  refine ⟨_, _, hrun, g, rendered', hs', fun x hx => ?_⟩
  obtain ⟨n, hn, d, _, hd, _, hstand⟩ := hall x hx
  exact ⟨n, hn, d, hd, hstand⟩

/-- In any run on the visits, the model imports a type that is called like its own parameter and one
that is called like the date type of the language. Each is written as the same bare name as what it
is called like. -/
theorem same_bareName_visits : ∃ report files,
    (∀ schedule, run schedule {} visits = .ok (report, files)) ∧
    ∃ rendered, Succeeds {} visits visitsGraph rendered ∧
      ∃ x ∈ rendered, ∃ d, x.identity = visit.identity ∧ x.file.declarations = [d] ∧
        d.typeParams = ["Guest"] ∧ x.imports = [guest.identity, date.identity] ∧
        (visit.properties.map fun p =>
            (context {} visitsGraph).mentions (.ofDefinition visit) p.type) =
          [[.parameter "Guest"], [.type guest.identity], [.type date.identity], [.date]] ∧
        (visit.properties.mapM fun p =>
            (context {} visitsGraph).map (.ofDefinition visit) (.property p.name) p.type) =
          .ok [.ref "Guest", .ref "Guest", .ref "Date", .ref "Date"] := by
  obtain ⟨rendered, hs⟩ := exists_succeeds_visits {}
  have hnode : Node.ofDefinition visit ∈ visitsGraph.nodes :=
    List.mem_cons_of_mem _ (List.mem_cons_self ..)
  obtain ⟨x, hx, hrender⟩ := exists_mem_of_mapM hs.rendered hnode
  obtain ⟨d, hd, hdeclares⟩ := Render.Context.exists_declares_of_render hrender
  obtain ⟨_, _, _, rfl⟩ := Render.Context.eq_file_of_render hrender
  exact ⟨_, _, hs.run_eq, rendered, hs, _, hx, d, rfl, hd, hdeclares.typeParams, rfl, rfl, rfl⟩

end Shop

end ApiTypings
