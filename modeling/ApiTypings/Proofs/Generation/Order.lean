import ApiTypings.Proofs.Catalog.Concatenation
import ApiTypings.Proofs.Generation.Output
import ApiTypings.Proofs.Generation.Stability
import ApiTypings.Proofs.Sink.Refinement
import Mathlib.Data.List.Perm.Basic

/-!
# The order of definitions

Two catalogs with the same definitions in different orders give the same files. The order of the
controllers decides which type is discovered first, but not which types are discovered, nor
whether their names clash, nor what is written for any of them.
-/

namespace ApiTypings

/-! ## Traversals in another order -/

/-- The results of a traversal follow the order of its elements. -/
theorem exists_mapM_perm {ε α β : Type} {f : α → Except ε β} {xs xs' : List α} {ys : List β}
    (hp : xs.Perm xs') (h : xs.mapM f = .ok ys) : ∃ ys', xs'.mapM f = .ok ys' ∧ ys.Perm ys' := by
  obtain ⟨ys', hys', hperm⟩ := List.perm_comp_forall₂ hp.symm (mapM_eq_ok_iff.mp h)
  exact ⟨ys', mapM_eq_ok_iff.mpr hys', hperm.symm⟩

section Permuted

variable {c c' : Catalog} (hp : c.definitions.Perm c'.definitions)

include hp

/-! ## Discovery in another order -/

/-- What an identity resolves to does not depend on the order of definitions. -/
theorem Node.resolve?_perm (id : Identity) : resolve? c id = resolve? c' id := by
  rw [resolve?, resolve?, Catalog.get?, Catalog.get?, find?_key_perm c.distinct hp]

private theorem Catalog.discovers_of_perm {id : Identity} (h : c.Discovers id) :
    c'.Discovers id := by
  have hentries : c.entryPoints.Perm c'.entryPoints := (hp.filter _).map _
  exact ⟨h.1.mono hp.subset hentries.subset, h.2⟩

private theorem Catalog.discovers_perm {id : Identity} : c.Discovers id ↔ c'.Discovers id :=
  ⟨discovers_of_perm hp, discovers_of_perm hp.symm⟩

/-- What is discovered in one order of definitions is discovered in another. -/
theorem exists_discover_perm {g : Graph} (h : discover c c.entryPoints = .ok g) :
    ∃ g', discover c' c'.entryPoints = .ok g' := by
  rw [exists_discover_iff_complete]
  have hcomplete := exists_discover_iff_complete.mp ⟨g, h⟩
  intro id hid
  have hmem := hcomplete id ((Catalog.discovers_perm hp).mpr hid)
  exact (hp.map Definition.identity).mem_iff.mp hmem

section Graphs

variable {g g' : Graph} (h : discover c c.entryPoints = .ok g)
  (h' : discover c' c'.entryPoints = .ok g')

include h h'

/-- The same types are discovered, in another order. -/
theorem nodes_perm : g.nodes.Perm g'.nodes := by
  rw [List.perm_ext_iff_of_nodup (nodup_identities h).of_map (nodup_identities h').of_map]
  intro n
  rw [mem_nodes_iff h, mem_nodes_iff h', Catalog.discovers_perm hp, Node.resolve?_perm hp]

/-- A type is written the same in another order. -/
theorem render_perm (style : Style) (n : Node) :
    Render.render (Generation.context style g') n =
      Render.render (Generation.context style g) n := by
  have hnodes := nodes_perm hp h h'
  have hsame : Render.render ((Generation.context style g).withGraph g') n = _ :=
    Render.Context.render_withGraph fun _ _ id _ =>
      (find?_key_perm (nodup_identities h) hnodes id).symm
  exact hsame

end Graphs

end Permuted

namespace Generation

variable {style : Style} {c c' : Catalog}

/-- The phases of a run succeed in any order of the definitions. -/
theorem Succeeds.perm {g : Graph} {rendered : List Render.Rendered}
    (h : Succeeds style c g rendered) (hp : c.definitions.Perm c'.definitions) :
    ∃ g' rendered', Succeeds style c' g' rendered' ∧ rendered.Perm rendered' := by
  obtain ⟨g', hdiscover⟩ := exists_discover_perm hp h.discovered
  have hnodes := nodes_perm hp h.discovered hdiscover
  obtain ⟨rendered', hrendered, hperm⟩ := exists_mapM_perm hnodes h.rendered
  have hsame : g'.nodes.mapM (Render.render (context style g')) = .ok rendered' := by
    rw [← hrendered]
    exact mapM_congr fun n _ => render_perm hp h.discovered hdiscover style n
  exact ⟨g', rendered',
    ⟨hdiscover, checkFilenames_ok_of_perm (hnodes.map _) h.checked, hsame⟩, hperm⟩

/-- Runs on two catalogs give the same files, whatever their schedules: one succeeds exactly when
the other does, and then they write the same texts under the same names, if perhaps in another
order. -/
structure SameOutput (style : Style) (c c' : Catalog) : Prop where
  succeeds : ∀ schedule schedule' sink sink',
    (∃ report, (runInto schedule style c sink).1 = .ok report) ↔
      ∃ report, (runInto schedule' style c' sink').1 = .ok report
  texts : ∀ schedule schedule' sink sink' report report' out out',
    runInto schedule style c sink = (.ok report, out) →
    runInto schedule' style c' sink' = (.ok report', out') →
      (∀ name, out.get? name = out'.get? name) ∧ out.files.Perm out'.files

/-- The order of the definitions in a catalog does not matter to its files. -/
theorem sameOutput_of_perm (style : Style) (hp : c.definitions.Perm c'.definitions) :
    SameOutput style c c' where
  succeeds := by
    intro schedule schedule' sink sink'
    rw [exists_runInto_ok_iff, exists_runInto_ok_iff]
    constructor
    · rintro ⟨g, rendered, h⟩
      obtain ⟨g', rendered', h', _⟩ := h.perm hp
      exact ⟨g', rendered', h'⟩
    · rintro ⟨g, rendered, h⟩
      obtain ⟨g', rendered', h', _⟩ := h.perm hp.symm
      exact ⟨g', rendered', h'⟩
  texts := by
    intro schedule schedule' sink sink' report report' out out' h h'
    obtain ⟨g, rendered, hs, hfiles, _⟩ := succeeds_of_runInto h
    obtain ⟨g', rendered', hs', hfiles', _⟩ := succeeds_of_runInto h'
    obtain ⟨_, permuted, hpermuted, hrendered⟩ := hs.perm hp
    obtain ⟨_, rfl⟩ := hpermuted.unique hs'
    have hperm : out.files.Perm out'.files := by
      rw [hfiles, hfiles']
      exact (hrendered.map _).cons _
    have hnodup : (out.files.map Artifact.filename).Nodup := by
      rw [hfiles, hs.filenames_eq]
      exact hs.nodup_filenames
    refine ⟨fun name => ?_, hperm⟩
    rw [MemorySink.get?, MemorySink.get?, find?_key_perm hnodup hperm]

/-- The order of the metadata does not change the files: not the order of a list of definitions,
not which of two catalogs is merged into the other, and not the order of the files that catalogs
are loaded from. -/
theorem sameOutput_any_order (style : Style) :
    (∀ ds ds' : List Definition, ds.Perm ds' → (ds.map Definition.identity).Nodup →
      ∃ c c', Catalog.ofDefinitions ds = .ok c ∧ Catalog.ofDefinitions ds' = .ok c' ∧
        SameOutput style c c') ∧
    (∀ a b : Catalog, (∀ id ∈ a.identities, id ∉ b.identities) →
      ∃ c c', a.merge b = (c, none) ∧ b.merge a = (c', none) ∧ SameOutput style c c') ∧
    ∀ (fs : FileSystem Id) (paths paths' : List String), paths.Perm paths' →
      ∀ c, (Catalog.loadAll fs paths).run = .ok c →
        ∃ c', (Catalog.loadAll fs paths').run = .ok c' ∧ SameOutput style c c' := by
  refine ⟨?_, ?_, ?_⟩
  · intro ds ds' hp hnodup
    have hnodup' := (hp.map Definition.identity).nodup_iff.mp hnodup
    exact ⟨⟨ds, hnodup⟩, ⟨ds', hnodup'⟩, Catalog.ofDefinitions_eq_ok_iff.mpr rfl,
      Catalog.ofDefinitions_eq_ok_iff.mpr rfl, sameOutput_of_perm style hp⟩
  · intro a b hab
    obtain ⟨c, hc⟩ := Catalog.exists_merge hab
    obtain ⟨c', hc'⟩ := Catalog.exists_merge fun id hb ha => hab id ha hb
    refine ⟨c, c', hc, hc', sameOutput_of_perm style ?_⟩
    rw [Catalog.merge_eq_none_iff.mp hc, Catalog.merge_eq_none_iff.mp hc']
    exact List.perm_append_comm
  · intro fs paths paths' hp c hc
    obtain ⟨cs, hcs, hdefinitions⟩ := Catalog.loadOnto_eq_ok_iff.mp hc
    obtain ⟨cs', hcs', hinputs⟩ := exists_mapM_perm (hp.filter _) hcs
    have hperm : c.definitions.Perm (Catalog.empty.definitions ++
        cs'.flatMap Catalog.definitions) := by
      rw [hdefinitions]
      exact (hinputs.flatMap_right _).append_left _
    have hnodup := (hperm.map Definition.identity).nodup_iff.mp c.distinct
    exact ⟨⟨_, hnodup⟩, Catalog.loadOnto_eq_ok_iff.mpr ⟨cs', hcs', rfl⟩,
      sameOutput_of_perm style hperm⟩

end Generation

/-! ## The shop in files -/

namespace Shop

open Disk Document Json

/-- A document with the model. -/
def orderDocument : String :=
  "\x7b\"types\":[\x7b\"namespace\":\"Shop\",\"name\":\"Order\",\"kind\":\"class\"," ++
    "\"properties\":[[\"Total\",\"System.Decimal\"]]\x7d]\x7d"

/-- A document with the first controller. -/
def controllerDocument : String :=
  "\x7b\"types\":[\x7b\"actions\":[[\"Get\",\"GET\",\"orders/\x7bid\x7d\"," ++
    "\"System.Threading.Tasks.Task<Shop.Order>\",[[\"id\",\"System.Int32\"]]]]," ++
    "\"controller\":true,\"kind\":\"class\",\"namespace\":\"Shop\"," ++
    "\"name\":\"OrdersController\"\x7d]\x7d"

/-- A document with the second controller. -/
def statusDocument : String :=
  "\x7b\"types\":[\x7b\"controller\":true,\"kind\":\"class\",\"name\":\"StatusController\"," ++
    "\"namespace\":\"Shop\"\x7d]\x7d"

/-- What the document with the model holds. -/
def orderValue : Value :=
  .object [(some "types", .array [.object [(some "namespace", .string (some "Shop")),
    (some "name", .string (some "Order")), (some "kind", .string (some "class")),
    (some "properties", .array [.array [.string (some "Total"),
      .string (some "System.Decimal")]])]])]

private theorem read_orderDocument : Json.read orderDocument = some orderValue := by
  -- The derivation of the text, rule by rule.
  refine read_of_gives rfl (gives_object rfl (fun _ h => by cases h) <|
    gives_fields rfl rfl rfl rfl (gives_array rfl (fun _ h => by cases h) <|
      gives_items (gives_object rfl (fun _ h => by cases h) <|
        gives_fields rfl rfl rfl rfl (gives_string rfl rfl) <| .inr ⟨_, rfl,
        gives_fields rfl rfl rfl rfl (gives_string rfl rfl) <| .inr ⟨_, rfl,
        gives_fields rfl rfl rfl rfl (gives_string rfl rfl) <| .inr ⟨_, rfl,
        gives_fields rfl rfl rfl rfl (gives_array rfl (fun _ h => by cases h) <|
          gives_items (gives_array rfl (fun _ h => by cases h) <|
            gives_items (gives_string rfl rfl) <| .inr ⟨_, rfl,
            gives_items (gives_string rfl rfl) <| .inl ⟨rfl, rfl⟩⟩) <|
          .inl ⟨rfl, rfl⟩) <|
        .inl ⟨rfl, rfl⟩⟩⟩⟩) <|
      .inl ⟨rfl, rfl⟩) <|
    .inl ⟨rfl, rfl⟩) rfl

/-- What the document with the first controller holds. -/
def controllerValue : Value :=
  .object [(some "types", .array [.object [
    (some "actions", .array [.array [.string (some "Get"), .string (some "GET"),
      .string (some "orders/\x7bid\x7d"), .string (some "System.Threading.Tasks.Task<Shop.Order>"),
      .array [.array [.string (some "id"), .string (some "System.Int32")]]]]),
    (some "controller", .bool true), (some "kind", .string (some "class")),
    (some "namespace", .string (some "Shop")), (some "name", .string (some "OrdersController"))]])]

set_option maxRecDepth 1000 in
private theorem read_controllerDocument : Json.read controllerDocument = some controllerValue := by
  refine read_of_gives rfl (gives_object rfl (fun _ h => by cases h) <|
    gives_fields rfl rfl rfl rfl (gives_array rfl (fun _ h => by cases h) <|
      gives_items (gives_object rfl (fun _ h => by cases h) <|
        gives_fields rfl rfl rfl rfl (gives_array rfl (fun _ h => by cases h) <|
          gives_items (gives_array rfl (fun _ h => by cases h) <|
            gives_items (gives_string rfl rfl) <| .inr ⟨_, rfl,
            gives_items (gives_string rfl rfl) <| .inr ⟨_, rfl,
            gives_items (gives_string rfl rfl) <| .inr ⟨_, rfl,
            gives_items (gives_string rfl rfl) <| .inr ⟨_, rfl,
            gives_items (gives_array rfl (fun _ h => by cases h) <|
              gives_items (gives_array rfl (fun _ h => by cases h) <|
                gives_items (gives_string rfl rfl) <| .inr ⟨_, rfl,
                gives_items (gives_string rfl rfl) <| .inl ⟨rfl, rfl⟩⟩) <|
              .inl ⟨rfl, rfl⟩) <|
            .inl ⟨rfl, rfl⟩⟩⟩⟩⟩) <|
          .inl ⟨rfl, rfl⟩) <| .inr ⟨_, rfl,
        gives_fields rfl rfl rfl rfl (gives_scalar rfl (by decide) (by decide) (by decide) rfl) <|
          .inr ⟨_, rfl,
        gives_fields rfl rfl rfl rfl (gives_string rfl rfl) <| .inr ⟨_, rfl,
        gives_fields rfl rfl rfl rfl (gives_string rfl rfl) <| .inr ⟨_, rfl,
        gives_fields rfl rfl rfl rfl (gives_string rfl rfl) <| .inl ⟨rfl, rfl⟩⟩⟩⟩⟩) <|
      .inl ⟨rfl, rfl⟩) <|
    .inl ⟨rfl, rfl⟩) rfl

/-- What the document with the second controller holds. -/
def statusValue : Value :=
  .object [(some "types", .array [.object [(some "controller", .bool true),
    (some "kind", .string (some "class")), (some "name", .string (some "StatusController")),
    (some "namespace", .string (some "Shop"))]])]

private theorem read_statusDocument : Json.read statusDocument = some statusValue := by
  refine read_of_gives rfl (gives_object rfl (fun _ h => by cases h) <|
    gives_fields rfl rfl rfl rfl (gives_array rfl (fun _ h => by cases h) <|
      gives_items (gives_object rfl (fun _ h => by cases h) <|
        gives_fields rfl rfl rfl rfl (gives_scalar rfl (by decide) (by decide) (by decide) rfl) <|
          .inr ⟨_, rfl,
        gives_fields rfl rfl rfl rfl (gives_string rfl rfl) <| .inr ⟨_, rfl,
        gives_fields rfl rfl rfl rfl (gives_string rfl rfl) <| .inr ⟨_, rfl,
        gives_fields rfl rfl rfl rfl (gives_string rfl rfl) <| .inl ⟨rfl, rfl⟩⟩⟩⟩) <|
      .inl ⟨rfl, rfl⟩) <|
    .inl ⟨rfl, rfl⟩) rfl

/-- A reference of the catalog is shown by its display. -/
theorem referenceForm_display {d : Definition} {r : Reference} (hd : d ∈ catalog.definitions)
    (hr : r ∈ d.references) : referenceForm r (.string (some r.display)) := by
  obtain ⟨text, htext⟩ := parsed d hd r hr
  exact ⟨r.display, rfl, Reference.parse_display (Reference.wellFormed_of_parse htext)⟩

private theorem orderValue_described : documentForm [order] orderValue := by
  have htype : referenceForm (.simple "System.Decimal") (.string (some "System.Decimal")) :=
    referenceForm_display (List.mem_cons_self ..) (List.mem_cons_self ..)
  have hproperty : propertyForm { name := "Total", type := .simple "System.Decimal" }
      (.array [.string (some "Total"), .string (some "System.Decimal")]) :=
    @RecordForm.array _ _ _ [_, _] [_] _ rfl (.cons rfl (.cons htype .nil))
      (by simp [Field.defaulted])
  have hproperties : listForm propertyForm order.properties
      (.array [.array [.string (some "Total"), .string (some "System.Decimal")]]) :=
    ⟨_, rfl, .cons hproperty .nil⟩
  refine ⟨_, ⟨_, rfl, .cons (.object (by simp) ?_) .nil⟩, .inl rfl⟩
  simpa [Field.required, Field.defaulted, valuesOf, textForm, variantForm, TypeKind.name,
    order] using hproperties

private theorem controllerValue_described : documentForm [controller] controllerValue := by
  have hmem : controller ∈ catalog.definitions := List.mem_cons_of_mem _ (List.mem_cons_self ..)
  have hreturns : referenceForm
      (.generic "System.Threading.Tasks.Task" [.simple "Shop.Order"])
      (.string (some "System.Threading.Tasks.Task<Shop.Order>")) :=
    referenceForm_display hmem (List.mem_cons_self ..)
  have htype : referenceForm (.simple "System.Int32") (.string (some "System.Int32")) :=
    referenceForm_display hmem (List.mem_cons_of_mem _ (List.mem_cons_self ..))
  have hparameter : parameterForm { name := "id", type := .simple "System.Int32" }
      (.array [.string (some "id"), .string (some "System.Int32")]) :=
    @RecordForm.array _ _ _ [_, _] [] _ rfl (.cons rfl (.cons htype .nil)) nofun
  have hactions : listForm actionForm controller.actions
      (.array [.array [.string (some "Get"), .string (some "GET"),
        .string (some "orders/\x7bid\x7d"),
        .string (some "System.Threading.Tasks.Task<Shop.Order>"),
        .array [.array [.string (some "id"), .string (some "System.Int32")]]]]) := by
    refine ⟨_, rfl, .cons (@RecordForm.array _ _ _ [_, _, _, _, _] [] _ rfl ?_ nofun) .nil⟩
    exact .cons rfl (.cons (.inl rfl) (.cons rfl (.cons hreturns
      (.cons ⟨_, rfl, .cons hparameter .nil⟩ .nil))))
  refine ⟨_, ⟨_, rfl, .cons (.object (by simp) ?_) .nil⟩, .inl rfl⟩
  simpa [Field.required, Field.defaulted, valuesOf, textForm, truthForm, variantForm, TypeKind.name,
    controller] using hactions

private theorem statusValue_described : documentForm [status] statusValue := by
  refine ⟨_, ⟨_, rfl, .cons (.object (by simp) ?_) .nil⟩, .inl rfl⟩
  simp [Field.required, Field.defaulted, valuesOf, textForm, truthForm, variantForm, TypeKind.name,
    status]

/-- A disk with the three documents beside an earlier output. -/
def disk : Disk :=
  ((withOutput.put ["order.json"] (.file orderDocument.toUTF8)).put ["orders.json"]
    (.file controllerDocument.toUTF8)).put ["status.json"] (.file statusDocument.toUTF8)

/-- The paths of the three documents. -/
def paths : List String := ["order.json", "orders.json", "status.json"]

/-- The three files are loaded as the catalog with the statuses. -/
theorem loadAll_paths : (Catalog.loadAll (snapshot disk) paths).run = .ok statusCatalog := by
  have hpresent : paths.filter disk.isPresent = paths := rfl
  have horder : disk.Holds "order.json" [order] :=
    holds_of_describes rfl read_orderDocument orderValue_described
  have horders : disk.Holds "orders.json" [controller] :=
    holds_of_describes rfl read_controllerDocument controllerValue_described
  have hstatus : disk.Holds "status.json" [status] :=
    holds_of_describes rfl read_statusDocument statusValue_described
  refine Catalog.loadAll_eq_ok_iff.mpr ⟨[[order], [controller], [status]], ?_, rfl⟩
  rw [hpresent]
  exact .cons horder (.cons horders (.cons hstatus .nil))

/-- A run over the shop succeeds. -/
theorem succeeds : ∃ rendered, Generation.Succeeds {} catalog graph rendered := by
  obtain ⟨rendered, hrendered⟩ := exists_rendered {}
  exact ⟨rendered, discover_eq_graph, rfl, hrendered⟩

/-- A run over the shop with its statuses succeeds. -/
theorem statusSucceeds : ∃ rendered, Generation.Succeeds {} statusCatalog statusGraph rendered := by
  obtain ⟨rendered, hrendered⟩ := exists_statusRendered {}
  exact ⟨rendered, discover_eq_statusGraph, rfl, hrendered⟩

/-- The types of the shop give the same files when two of them change places, when the controllers
are merged the other way round, and when the documents are loaded in another order; and there are
such files. -/
theorem sameOutput_swapped :
    ([order, controller].Perm [controller, order] ∧
      ([order, controller].map Definition.identity).Nodup ∧
      ∃ c', Catalog.ofDefinitions [order, controller] = .ok catalog ∧
        Catalog.ofDefinitions [controller, order] = .ok c' ∧
        Generation.SameOutput {} catalog c') ∧
    ((∀ id ∈ catalog.identities, id ∉ statusPart.identities) ∧
      ∃ c', catalog.merge statusPart = (statusCatalog, none) ∧
        statusPart.merge catalog = (c', none) ∧ c'.definitions = [status, order, controller] ∧
        Generation.SameOutput {} statusCatalog c') ∧
    (paths.Perm paths.reverse ∧
      (Catalog.loadAll (snapshot disk) paths).run = .ok statusCatalog ∧
      ∃ c', (Catalog.loadAll (snapshot disk) paths.reverse).run = .ok c' ∧
        Generation.SameOutput {} statusCatalog c') ∧
    (∃ report, (Generation.runInto .inOrder {} catalog {}).1 = .ok report) ∧
    ∃ report, (Generation.runInto .inOrder {} statusCatalog {}).1 = .ok report := by
  obtain ⟨hdefinitions, hmerged, hloaded⟩ := Generation.sameOutput_any_order {}
  refine ⟨?_, ?_, ?_, Generation.exists_runInto_ok_iff.mpr ⟨_, succeeds⟩,
    Generation.exists_runInto_ok_iff.mpr ⟨_, statusSucceeds⟩⟩
  · have hperm : [order, controller].Perm [controller, order] := List.Perm.swap ..
    obtain ⟨c, c', hc, hc', hsame⟩ := hdefinitions _ _ hperm catalog.distinct
    obtain rfl : catalog = c :=
      Catalog.eq_of_definitions (Catalog.ofDefinitions_eq_ok_iff.mp hc).symm
    exact ⟨hperm, catalog.distinct, c', hc, hc', hsame⟩
  · have happart : ∀ id ∈ catalog.identities, id ∉ statusPart.identities := by decide
    obtain ⟨c, c', hc, hc', hsame⟩ := hmerged _ _ happart
    obtain rfl : statusCatalog = c :=
      Catalog.eq_of_definitions (Catalog.merge_eq_none_iff.mp hc).symm
    exact ⟨happart, c', hc, hc', Catalog.merge_eq_none_iff.mp hc', hsame⟩
  · have hperm : paths.Perm paths.reverse := (List.reverse_perm _).symm
    obtain ⟨c', hc', hsame⟩ := hloaded _ _ _ hperm _ loadAll_paths
    exact ⟨hperm, loadAll_paths, c', hc', hsame⟩

end Shop

end ApiTypings
