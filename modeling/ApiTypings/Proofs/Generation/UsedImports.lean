import ApiTypings.Proofs.Generation.TypeArguments
import ApiTypings.Proofs.Render.Keys

/-!
# Which imports are used

The file of a node imports what its references name, and it writes what they name outside the keys
of dictionaries. An import is used unless the type is named in such keys only; nothing is written
that is neither imported nor declared by the file itself.
-/

namespace ApiTypings

namespace Render

open TypeScript (Declaration)

/-- The imports of a node that is rendered are the discovered types other than its own that its
references name, each once. Such a type is written in the declaration of the node or it is named
in the key of a dictionary, where nothing is written for it. -/
theorem imports_iff_mentioned {c : Catalog} {entryPoints : List Identity} {ctx : Context}
    (hc : c.Parsed) (h : discover c entryPoints = .ok ctx.graph) {n : Node}
    (hn : n ∈ ctx.graph.nodes) {x : Rendered} (hx : render ctx n = .ok x) :
    (∃ d, x.file.declarations = [d] ∧ ctx.Declares n d) ∧
    (∀ p ∈ ctx.mapped n, ∃ t, ctx.map n p.2 p.1 = .ok t ∧
      t.names = (ctx.mentions n p.1).map Mention.text) ∧
    x.file.imports = ctx.fixedImports n ++
      x.imports.map (fun id => ctx.importOf id.declaredName [id.declaredName]) ∧
    x.imports.Nodup ∧
    ∀ id, id ∈ x.imports ↔ id ≠ n.identity ∧ ctx.graph.contains id = true ∧
      ∃ p ∈ ctx.mapped n, .type id ∈ ctx.mentions n p.1 ∨ p.1.NamesInKeys id := by
  obtain ⟨d, hd, hdeclares⟩ := Context.exists_declares_of_render hx
  obtain ⟨_, _, _, rfl⟩ := Context.eq_file_of_render hx
  refine ⟨⟨d, hd, hdeclares⟩, fun p hp => ?_, rfl, Context.nodup_eraseDups _, fun id => ?_⟩
  · obtain ⟨t, _, ht⟩ := hdeclares.mapped p hp
    exact ⟨t, ht, Context.names_map ctx n p.2 p.1 t ht⟩
  · -- A reference names a discovered type where it writes it or in a key, which writes nothing.
    have hnamed : ∀ p ∈ ctx.mapped n, ctx.graph.contains id = true →
        (id ∈ p.1.identities ↔ .type id ∈ ctx.mentions n p.1 ∨ p.1.NamesInKeys id) := by
      intro p hp hcontains
      obtain ⟨t, _, ht⟩ := hdeclares.mapped p hp
      have href := Context.mem_references_of_mem_mapped hp
      have hwf := wellFormed_of_mem_references hc (resolve?_of_mem_nodes h hn) href
      rw [Reference.mem_identities_iff, Context.type_mem_mentions_iff
        (fun _ => node?_of_isSystem h) hwf ht]
      simp [hcontains]
    have hmem := @Context.mem_imported_iff ctx n.identity id ((ctx.mapped n).map Prod.fst)
    refine hmem.trans ?_
    constructor
    · rintro ⟨⟨r, hr, hid⟩, hne, hcontains⟩
      obtain ⟨p, hp, rfl⟩ := List.mem_map.mp hr
      exact ⟨hne, hcontains, p, hp, (hnamed p hp hcontains).mp hid⟩
    · rintro ⟨hne, hcontains, p, hp, hid⟩
      exact ⟨⟨p.1, List.mem_map_of_mem hp, (hnamed p hp hcontains).mpr hid⟩, hne, hcontains⟩

end Render

namespace Shop

open Render (Rendered Mention)

private theorem exists_render_page : ∃ x : Rendered,
    Render.render (Generation.context {} pagesGraph) (.ofDefinition page) = .ok x := ⟨_, rfl⟩

/-- The file of the page imports the enum, which it writes. -/
theorem imports_page : pages.Parsed ∧ discover pages pages.entryPoints = .ok pagesGraph ∧
    Node.ofDefinition page ∈ pagesGraph.nodes ∧ ∃ x : Rendered,
      Render.render (Generation.context {} pagesGraph) (.ofDefinition page) = .ok x ∧
      mode.identity ∈ x.imports ∧ x.imports.Nodup := by
  obtain ⟨x, hx⟩ := exists_render_page
  obtain ⟨_, _, _, hnodup, hiff⟩ :=
    Render.imports_iff_mentioned parsed_pages discover_eq_pagesGraph page_mem_nodes hx
  refine ⟨parsed_pages, discover_eq_pagesGraph, page_mem_nodes, x, hx, ?_, hnodup⟩
  exact (hiff mode.identity).mpr ⟨by decide, rfl, _, mode_mem_mapped, .inl (by decide)⟩

/-- The file of the page imports the product, which stands in the key of a dictionary only and is
written nowhere. -/
theorem imports_unused_product : pages.Parsed ∧
    discover pages pages.entryPoints = .ok pagesGraph ∧
    Node.ofDefinition page ∈ pagesGraph.nodes ∧ ∃ x : Rendered,
      Render.render (Generation.context {} pagesGraph) (.ofDefinition page) = .ok x ∧
      product.identity ∈ x.imports ∧
      ∀ p ∈ (Generation.context {} pagesGraph).mapped (.ofDefinition page),
        Mention.type product.identity ∉
          (Generation.context {} pagesGraph).mentions (.ofDefinition page) p.1 := by
  refine ⟨parsed_pages, discover_eq_pagesGraph, page_mem_nodes, _, rfl, ?_, ?_⟩
  · decide
  · decide

end Shop

end ApiTypings
