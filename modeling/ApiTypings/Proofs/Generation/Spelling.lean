import ApiTypings.Proofs.Generation.Imports
import ApiTypings.Proofs.Generation.Output
import ApiTypings.Proofs.Layout
import ApiTypings.Proofs.Render.Spelling

/-!
# A run in any style

The style of a run decides how its files are spelled, and nothing else. Which faults a run may fail
with is decided by the catalog, and which of them it tells by the schedule; the style has no part in
either. Runs in two styles that succeed give the same report and write the same files with the same
imports. If both styles write nullable types alike, the files are even the same line by line, up to
the keyword `export` before each declaration and the form of the imports, and these reach the same
files.
-/

namespace ApiTypings

namespace TypeScript

/-- A text without braces. -/
def Braceless (s : String) : Prop := '\x7b' ∉ s.toList ∧ '\x7d' ∉ s.toList
  deriving Decidable

/-- Identifiers have no braces. -/
theorem braceless_identifier (name : String) : Braceless (identifier name) := by
  constructor
  · intro h
    exact absurd (isPlainChar_of_mem_identifier h) (by decide)
  · intro h
    exact absurd (isPlainChar_of_mem_identifier h) (by decide)

/-- Texts without braces have none together. -/
theorem Braceless.append {s t : String} (hs : Braceless s) (ht : Braceless t) :
    Braceless (s ++ t) := by
  rw [Braceless, String.toList_append, List.mem_append, List.mem_append, not_or, not_or]
  exact ⟨⟨hs.1, ht.1⟩, hs.2, ht.2⟩

/-- Two texts that the layout keeps together whatever stands between them, as long as the braces
balance. -/
theorem inert_between {before after : String}
    (hx : before.toList.head?.any (!Text.isBlank ·))
    (hz : after.toList.getLast?.any (!Text.isBlank ·)) {s : String}
    (h : (before ++ s ++ after).toList.count '\x7b' =
      (before ++ s ++ after).toList.count '\x7d') :
    Layout.Inert (before ++ s ++ after).toList where
  trimmed := by
    rw [String.toList_append, String.toList_append]
    exact Text.trimChars_of_ends hx hz s.toList
  balanced := h

namespace Import

/-- An import of items leaves the depth. -/
theorem inert_named {items : List String} {source : String} (hsource : Braceless source)
    (hitems : ∀ item ∈ items, Braceless item) :
    Layout.Inert (named items source).text.toList := by
  have hjoined : Braceless (Text.join ", " items) :=
    ⟨Text.not_mem_join (by decide) fun s hs => (hitems s hs).1,
      Text.not_mem_join (by decide) fun s hs => (hitems s hs).2⟩
  have htext : (named items source).text =
      "import \x7b " ++ (Text.join ", " items ++ " \x7d from \"" ++ source) ++ "\";" := by
    change "import \x7b " ++ Text.join ", " items ++ " \x7d from \"" ++ source ++ "\";" = _
    rw [← String.append_assoc, ← String.append_assoc]
  rw [htext]
  refine inert_between (by decide) (by decide) ?_
  simp only [String.toList_append, List.count_append, List.count_eq_zero_of_not_mem hjoined.1,
    List.count_eq_zero_of_not_mem hjoined.2, List.count_eq_zero_of_not_mem hsource.1,
    List.count_eq_zero_of_not_mem hsource.2]
  decide

/-- A reference to a file leaves the depth. -/
theorem inert_reference {path : String} (hpath : Braceless path) :
    Layout.Inert (reference path).text.toList := by
  refine inert_between (by decide) (by decide) ?_
  simp only [String.toList_append, List.count_append, List.count_eq_zero_of_not_mem hpath.1,
    List.count_eq_zero_of_not_mem hpath.2]
  decide

end Import

end TypeScript

open TypeScript (Block Braceless Declaration Import fileLines modifierOf)

namespace TypeScript.SourceFile

/-- A file of one declaration is laid out as its imports and a block. -/
theorem indent_lines {imports : List Import} (h : ∀ i ∈ imports, Layout.Inert i.text.toList)
    {d : Declaration} {b : Block} {m : String} (hb : Layout.indent d.lines = b.lines m) :
    Layout.indent (lines ⟨imports, [d]⟩) = fileLines imports m [b] := by
  have hinert : ∀ line ∈ imports.map Import.text, Layout.Inert line.toList := by
    intro line hline
    obtain ⟨i, hi, rfl⟩ := List.mem_map.mp hline
    exact h i hi
  change Layout.indent (append (imports.map Import.text) d) = _
  rw [indent_append (Layout.depth_of_inert hinert), Layout.indent_of_inert hinert, hb]
  rfl

end TypeScript.SourceFile

namespace Render

/-- The contract is laid out to the same blocks in both styles. -/
theorem exists_blocks_contractFile : ∃ blocks : List Block, ∀ style,
    Layout.indent (contractFile style).lines =
      fileLines [] (modifierOf (style == .modules)) blocks := by
  obtain ⟨config, hconfig⟩ := Declaration.exists_block (requestConfig false)
  obtain ⟨contract, hcontract⟩ := Declaration.exists_block (contractInterface false)
  have hdepth : ∀ exported, Layout.depth (requestConfig exported).lines = 0 := by
    decide +kernel
  refine ⟨[config, contract], fun style => ?_⟩
  change Layout.indent (TypeScript.SourceFile.append (requestConfig (style == .modules)).lines
    (contractInterface (style == .modules))) = _
  rw [TypeScript.SourceFile.indent_append (hdepth _)]
  exact congrArg₂ TypeScript.spaced (hconfig _) (hcontract _)

namespace Context

/-- The line of an import is kept by the layout. -/
theorem inert_importOf (ctx : Context) {stem : String} {items : List String}
    (hstem : Braceless stem) (hitems : ∀ item ∈ items, Braceless item) :
    Layout.Inert (ctx.importOf stem items).text.toList := by
  have hsource : Braceless ("./" ++ stem) := Braceless.append (by decide) hstem
  rw [importOf]
  cases ctx.moduleStyle with
  | modules => exact Import.inert_named hsource hitems
  | globals => exact Import.inert_reference (hsource.append (by decide))

/-- The lines of the imports of a node's file are kept by the layout. -/
theorem inert_imports (ctx : Context) (node : Node) (d : Declaration) (ids : List Identity) :
    ∀ i ∈ (ctx.file node.identity (ctx.fixedImports node) d ids).file.imports,
      Layout.Inert i.text.toList := by
  intro i hi
  rw [imports_file, List.mem_append, List.mem_map] at hi
  rcases hi with hi | ⟨id, _, rfl⟩
  · rw [mem_fixedImports hi]
    exact inert_importOf ctx (by decide) (by decide)
  · have hname : Braceless id.declaredName := TypeScript.braceless_identifier id.name
    refine inert_importOf ctx hname ?_
    rw [List.forall_mem_singleton]
    exact hname

/-- The file of a node is laid out as its imports and the block of its declaration. -/
theorem indent_file (ctx : Context) (node : Node) (ids : List Identity) {d : Declaration}
    {b : Block} {m : String} (hb : Layout.indent d.lines = b.lines m) :
    Layout.indent (ctx.file node.identity (ctx.fixedImports node) d ids).lines =
      fileLines (ctx.file node.identity (ctx.fixedImports node) d ids).file.imports m [b] :=
  TypeScript.SourceFile.indent_lines (inert_imports ctx node d ids) hb

/-- The imports of a node's file reach the same files in every context. -/
theorem map_target_imports (ctx ctx' : Context) (node : Node) (d d' : Declaration)
    (ids : List Identity) :
    (ctx.file node.identity (ctx.fixedImports node) d ids).file.imports.map Import.target =
      (ctx'.file node.identity (ctx'.fixedImports node) d' ids).file.imports.map
        Import.target := by
  have htarget : ∀ stem items,
      (ctx.importOf stem items).target = (ctx'.importOf stem items).target :=
    fun stem items => (target_importOf ctx stem items).trans (target_importOf ctx' stem items).symm
  have hfixed : (ctx.fixedImports node).map Import.target =
      (ctx'.fixedImports node).map Import.target := by
    rw [fixedImports, fixedImports]
    split
    · exact congrArg (· :: []) (htarget ..)
    · rfl
  rw [imports_file, imports_file, List.map_append, List.map_append, hfixed, List.map_map,
    List.map_map]
  exact congrArg _ (List.map_congr_left fun id _ => htarget ..)

end Context

end Render

namespace Generation

/-- The keyword before the declarations of a style. -/
def modifier (style : Style) : String := modifierOf (style.moduleStyle == .modules)

/-- Lines as the text of a file. -/
def written (style : Style) (lines : List String) : String :=
  Text.join style.newline.text lines ++ style.newline.text

/-- One file in two styles: its imports reach the same files in the same order, and its declarations
are laid out to the same lines, up to the keyword `export` and the line ends. -/
structure Respelled (style style' : Style) (s s' : Source) : Prop where
  filename : s.filename = s'.filename
  targets : s.file.imports.map Import.target = s'.file.imports.map Import.target
  blocks : ∃ blocks : List Block,
    (s.artifact style).content = written style (fileLines s.file.imports (modifier style) blocks) ∧
    (s'.artifact style').content =
      written style' (fileLines s'.file.imports (modifier style') blocks)

variable {style style' : Style}

private theorem respelled_contract :
    Respelled style style' (contractSource style) (contractSource style') where
  filename := rfl
  targets := rfl
  blocks := by
    obtain ⟨blocks, hblocks⟩ := Render.exists_blocks_contractFile
    exact ⟨blocks, congrArg (written style) (hblocks _), congrArg (written style') (hblocks _)⟩

private theorem respelled_of_spelled {g : Graph} {node : Node} {x x' : Render.Rendered}
    (h : Render.Context.Spelled (context style g) (context style' g) node x x') :
    Respelled style style' (.ofRendered x) (.ofRendered x') := by
  obtain ⟨d, ids, rfl, rfl⟩ := h
  obtain ⟨b, hb⟩ := Declaration.exists_block d
  exact
    { filename := rfl
      targets := Render.Context.map_target_imports ..
      blocks := ⟨[b], congrArg (written style) (Render.Context.indent_file _ node ids (hb _)),
        congrArg (written style') (Render.Context.indent_file _ node ids (hb _))⟩ }

/-- A node is rendered in both styles, to files of the same type with the same imports, or fails to
be for the same reason. -/
theorem render_alike (style style' : Style) (g : Graph) (node : Node) :
    Alike (fun x x' => x.identity = x'.identity ∧ x.imports = x'.imports)
      (Render.render (context style g) node) (Render.render (context style' g) node) :=
  Render.Context.render_alike
    (show (context style g).graph = (context style' g).graph from rfl) node

/-- Under one schedule the nodes of a graph are rendered in both styles, or the same one is told. -/
theorem renderNodes_alike (schedule : Schedule) (style style' : Style) (g : Graph) :
    Alike (List.Forall₂ fun x x' => x.identity = x'.identity ∧ x.imports = x'.imports)
      (renderNodes schedule style g) (renderNodes schedule style' g) :=
  Schedule.gather_alike schedule fun node _ => render_alike style style' g node

private theorem renderNodes_respelled (schedule : Schedule)
    (hnull : style.strictNull = style'.strictNull) (g : Graph) :
    Alike (List.Forall₂ fun x x' => Respelled style style' (.ofRendered x) (.ofRendered x'))
      (renderNodes schedule style g) (renderNodes schedule style' g) := by
  have hgraph : (context style g).graph = (context style' g).graph := rfl
  refine Schedule.gather_alike schedule fun node _ => ?_
  exact (Render.Context.render_spelled hgraph hnull node).mono fun _ _ => respelled_of_spelled

private theorem map_eq_map_of_forall₂ {α β γ : Type} {f : α → γ} {g : β → γ} {xs : List α}
    {ys : List β} (h : List.Forall₂ (fun x y => f x = g y) xs ys) : xs.map f = ys.map g := by
  rw [← List.forall₂_eq_eq_eq, List.forall₂_map_left_iff, List.forall₂_map_right_iff]
  exact h

/-! ## Failing -/

/-- The faults of a catalog: the one that discovery ends with, the clash of files that is found, or
else those of the discovered nodes that can be rendered in no style. -/
inductive Fault (c : Catalog) : GenerationFault → Prop
  | unresolved (e : Unresolved) (discovery : discover c c.entryPoints = .error e) :
      Fault c (.unresolved e)
  | collision (g : Graph) (e : Collision) (discovery : discover c c.entryPoints = .ok g)
      (check : checkFilenames g.identities = .error e) : Fault c (.collision e)
  | unmappable (g : Graph) (node : Node) (e : Unmappable)
      (discovery : discover c c.entryPoints = .ok g) (check : checkFilenames g.identities = .ok ())
      (mem : node ∈ g.nodes)
      (render : ∀ style, Render.render (context style g) node = .error e) :
      Fault c (.unmappable e)

/-- A node that cannot be rendered in a style cannot be in any other, for the same reason. -/
theorem render_error_any_style {g : Graph} {node : Node} {e : Unmappable}
    (h : Render.render (context style g) node = .error e) (style' : Style) :
    Render.render (context style' g) node = .error e :=
  (render_alike style style' g node).eq_error_iff.mp h

/-- Under some schedule a run in any style ends with each fault of its catalog, and with no other
under any. -/
theorem exists_run_error_iff {c : Catalog} {fault : GenerationFault} :
    (∃ schedule, run schedule style c = .error fault) ↔ Fault c fault := by
  constructor
  · rintro ⟨schedule, h⟩
    have hends := ends_run schedule style c
    rw [h] at hends
    cases hends with
    | unresolved e hd => exact .unresolved e hd
    | collision g e hd hcheck => exact .collision g e hd hcheck
    | unmappable g e hd hcheck hnodes =>
      obtain ⟨node, hnode, hrender⟩ := exists_renderNodes_eq_error_iff.mp ⟨schedule, hnodes⟩
      exact .unmappable g node e hd hcheck hnode (render_error_any_style hrender)
  · intro h
    cases h with
    | unresolved e hd => exact ⟨.inOrder, run_unresolved hd⟩
    | collision g e hd hcheck => exact ⟨.inOrder, run_collision hd hcheck⟩
    | unmappable g node e hd hcheck hnode hrender =>
      obtain ⟨schedule, hnodes⟩ := exists_renderNodes_eq_error_iff.mpr ⟨node, hnode, hrender style⟩
      exact ⟨schedule, run_unmappable hd hcheck hnodes⟩

/-- The faults of a run do not depend on the sink. -/
theorem exists_runInto_error_iff {c : Catalog} {sink : MemorySink} {fault : GenerationFault} :
    (∃ schedule, (runInto schedule style c sink).1 = .error fault) ↔ Fault c fault := by
  simp only [runInto_fst, map_eq_error_iff]
  exact exists_run_error_iff

/-! ## Runs in two styles -/

/-- The files of a graph have the same names in both styles. -/
theorem ofGraph_alike (schedule : Schedule) (style style' : Style) (g : Graph) :
    Alike (fun files files' => files.map Artifact.filename = files'.map Artifact.filename)
      (ofGraph schedule style g) (ofGraph schedule style' g) := by
  refine (Alike.of_eq rfl).bind fun _ _ _ => ?_
  refine ((renderNodes_alike schedule style style' g).mapError GenerationFault.unmappable).bind ?_
  intro rendered rendered' h
  have hnames : rendered.map (fun x => x.identity.filename) =
      rendered'.map (fun x => x.identity.filename) :=
    map_eq_map_of_forall₂ (h.imp fun _ _ hx => congrArg Identity.filename hx.1)
  refine .ok ?_
  rw [List.map_cons, List.map_cons, List.map_map, List.map_map]
  exact congrArg _ hnames

/-- Under one schedule a run gives the same report in both styles, or fails with the same error. -/
theorem run_alike (schedule : Schedule) (style style' : Style) (c : Catalog) :
    Alike (fun result result' => result.1 = result'.1) (run schedule style c)
      (run schedule style' c) := by
  refine (Alike.of_eq rfl).bind fun g _ heq => ?_
  subst heq
  refine (ofGraph_alike schedule style style' g).bind fun files files' h => .ok ?_
  rw [h]

/-- A run reports the same in every style. -/
theorem runInto_fst_any_style (schedule : Schedule) (style style' : Style) (c : Catalog)
    (sink sink' : MemorySink) :
    (runInto schedule style c sink).1 = (runInto schedule style' c sink').1 := by
  rw [runInto_fst, runInto_fst]
  exact ((run_alike schedule style style' c).map (S := Eq) fun _ _ h => h).eq

/-- The report of a run that succeeds does not depend on the schedule. -/
theorem runInto_fst_any_schedule {schedule : Schedule} {c : Catalog} {sink : MemorySink}
    {report : Report} (h : (runInto schedule style c sink).1 = .ok report) (schedule' : Schedule) :
    (runInto schedule' style c sink).1 = .ok report := by
  obtain ⟨g, rendered, hs⟩ := exists_runInto_ok_iff.mp ⟨report, h⟩
  rw [runInto_fst, hs.run_eq] at h ⊢
  exact h

private theorem files_runInto {c : Catalog} {g : Graph} {rendered : List Render.Rendered}
    (h : Succeeds style c g rendered) (schedule : Schedule) (sink : MemorySink) :
    (runInto schedule style c sink).2.files =
      (sources style rendered).map (Source.artifact style) := by
  rw [runInto, h.run_eq, map_artifact_sources]
  exact MemorySink.files_writeAll (h.filenames_eq ▸ h.nodup_filenames) sink

/-- When a run goes through all phases in one style, it does in any other: each type has the same
imports, and the files are spelled differently at most. -/
theorem Succeeds.any_style {c : Catalog} {g : Graph} {rendered : List Render.Rendered}
    (h : Succeeds style c g rendered) (style' : Style) :
    ∃ rendered', Succeeds style' c g rendered' ∧
      rendered.map Render.Rendered.identity = rendered'.map Render.Rendered.identity ∧
      rendered.map Render.Rendered.imports = rendered'.map Render.Rendered.imports ∧
      (style.strictNull = style'.strictNull →
        List.Forall₂ (Respelled style style') (sources style rendered)
          (sources style' rendered')) := by
  have halike := renderNodes_alike .inOrder style style' g
  have hrespelled := fun hnull : style.strictNull = style'.strictNull =>
    renderNodes_respelled .inOrder hnull g
  rw [(renderNodes_eq_ok_iff .inOrder).mpr h.rendered] at halike hrespelled
  cases hnodes : renderNodes .inOrder style' g with
  | error e =>
    rw [hnodes] at halike
    cases halike
  | ok rendered' =>
    rw [hnodes] at halike hrespelled
    obtain ⟨hpairs⟩ := halike
    refine ⟨rendered', ⟨h.discovered, h.checked, (renderNodes_eq_ok_iff .inOrder).mp hnodes⟩,
      map_eq_map_of_forall₂ (hpairs.imp fun _ _ h => h.1),
      map_eq_map_of_forall₂ (hpairs.imp fun _ _ h => h.2), fun hnull => ?_⟩
    obtain ⟨hfiles⟩ := hrespelled hnull
    refine .cons respelled_contract ?_
    rw [List.forall₂_map_left_iff, List.forall₂_map_right_iff]
    exact hfiles

/-- The style of a run changes the spelling of its files only. Under one schedule, runs in two
styles give the same report or fail with the same error. The errors that a run may fail with, under
one schedule or another, are the faults of its catalog, in which no style has a part. Whether a run
succeeds, and with which report, depends neither on the schedule nor on the style; if it does, the
files have the same names in the same order, and each type's file imports the same types. If
moreover both styles write nullable types alike, each file is the same in both styles up to the
keyword `export` before its declarations, the form of its imports, which reach the same files, and
the line ends. -/
theorem runInto_any_style (c : Catalog) (style style' : Style) (sink sink' : MemorySink) :
    (∀ schedule, (runInto schedule style c sink).1 = (runInto schedule style' c sink').1) ∧
    (∀ fault, ((∃ schedule, (runInto schedule style c sink).1 = .error fault) ↔ Fault c fault) ∧
      ((∃ schedule, (runInto schedule style' c sink').1 = .error fault) ↔ Fault c fault)) ∧
    ∀ schedule schedule' report,
      ((runInto schedule style c sink).1 = .ok report ↔
        (runInto schedule' style' c sink').1 = .ok report) ∧
      ((runInto schedule style c sink).1 = .ok report →
        ∃ g rendered rendered', Succeeds style c g rendered ∧ Succeeds style' c g rendered' ∧
          (runInto schedule style c sink).2.files =
            (sources style rendered).map (Source.artifact style) ∧
          (runInto schedule' style' c sink').2.files =
            (sources style' rendered').map (Source.artifact style') ∧
          (runInto schedule style c sink).2.filenames =
            (runInto schedule' style' c sink').2.filenames ∧
          rendered.map Render.Rendered.identity = rendered'.map Render.Rendered.identity ∧
          rendered.map Render.Rendered.imports = rendered'.map Render.Rendered.imports ∧
          (style.strictNull = style'.strictNull →
            List.Forall₂ (Respelled style style') (sources style rendered)
              (sources style' rendered'))) := by
  refine ⟨fun schedule => runInto_fst_any_style schedule style style' c sink sink',
    fun fault => ⟨exists_runInto_error_iff, exists_runInto_error_iff⟩,
    fun schedule schedule' report => ⟨⟨fun h => ?_, fun h => ?_⟩, fun h => ?_⟩⟩
  · rw [runInto_fst_any_style schedule style style' c sink sink'] at h
    exact runInto_fst_any_schedule h schedule'
  · rw [runInto_fst_any_style schedule style style' c sink sink']
    exact runInto_fst_any_schedule h schedule
  · obtain ⟨g, rendered, hs⟩ := exists_runInto_ok_iff.mp ⟨report, h⟩
    obtain ⟨rendered', hs', hidentities, himports, hrespelled⟩ := hs.any_style style'
    refine ⟨g, rendered, rendered', hs, hs', files_runInto hs schedule sink,
      files_runInto hs' schedule' sink', ?_, hidentities, himports, hrespelled⟩
    rw [MemorySink.filenames, MemorySink.filenames, files_runInto hs, files_runInto hs',
      map_artifact_sources, map_artifact_sources, hs.filenames_eq, hs'.filenames_eq]

end Generation

end ApiTypings
