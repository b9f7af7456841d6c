import ApiTypings.Proofs.Generation.Success

/-!
# What a run leaves in a sink

A failed run leaves the sink as it was. A run that succeeds leaves exactly its own files: that of
the contract, then one for each discovered type in the order of discovery. The check of file names
is what makes this so, since a sink keeps one text for each name.
-/

namespace ApiTypings

namespace MemorySink

/-- A new name goes to the end. -/
theorem put_of_not_mem {a : Artifact} {files : List Artifact}
    (h : a.filename ∉ files.map Artifact.filename) : put a files = files ++ [a] := by
  induction files with
  | nil => rfl
  | cons b bs ih =>
    rw [List.map_cons, List.mem_cons, not_or] at h
    rw [put, if_neg (Ne.symm h.1), ih h.2]
    rfl

/-- Files with different names are appended. -/
theorem foldl_put_of_nodup {batch files : List Artifact}
    (h : ((files ++ batch).map Artifact.filename).Nodup) :
    batch.foldl (fun files a => put a files) files = files ++ batch := by
  induction batch generalizing files with
  | nil => rw [List.foldl_nil, List.append_nil]
  | cons a batch ih =>
    have hsplit : files ++ a :: batch = files ++ [a] ++ batch := by simp
    have hfresh : a.filename ∉ files.map Artifact.filename := by
      rw [List.map_append, List.nodup_append] at h
      intro hmem
      exact h.2.2 a.filename hmem a.filename (List.mem_cons_self ..) rfl
    rw [hsplit] at h
    rw [List.foldl_cons, put_of_not_mem hfresh, ih h, ← hsplit]

/-- A batch without repeated names is kept as it is. -/
theorem files_writeAll {batch : List Artifact} (h : (batch.map Artifact.filename).Nodup)
    (sink : MemorySink) : (sink.writeAll batch).files = batch :=
  foldl_put_of_nodup h

end MemorySink

/-- What is rendered has the identity of its node. -/
theorem Render.identity_of_render {ctx : Render.Context} {n : Node} {x : Render.Rendered}
    (h : Render.render ctx n = .ok x) : x.identity = n.identity := by
  obtain ⟨d, _, _, rfl⟩ := Render.Context.eq_file_of_render h
  rfl

namespace Generation

variable {schedule : Schedule} {style : Style} {c : Catalog}

namespace Succeeds

variable {g : Graph} {rendered : List Render.Rendered} (h : Succeeds style c g rendered)

include h

/-- The files of a run have the names of the contract's file and of those of the discovered types,
in the order of discovery. -/
theorem filenames_eq :
    (contractArtifact style :: rendered.map (artifact style)).map Artifact.filename =
      contractFilename :: g.identities.map Identity.filename := by
  have hids : rendered.map Render.Rendered.identity = g.identities :=
    map_eq_map_of_mapM (fun _ _ => Render.identity_of_render) h.rendered
  rw [List.map_cons, List.map_map, ← hids, List.map_map]
  rfl

/-- The contract and the types of a discovered graph have different files. -/
theorem nodup_filenames : (contractFilename :: g.identities.map Identity.filename).Nodup := by
  obtain ⟨hcontract, hnodup⟩ := checkFilenames_ok_iff.mp h.checked
  rw [List.nodup_cons]
  refine ⟨?_, hnodup⟩
  intro hmem
  obtain ⟨id, hid, heq⟩ := List.mem_map.mp hmem
  exact hcontract id hid heq

end Succeeds

/-- A run that reports success went through all phases, and its sink holds what was rendered. -/
theorem succeeds_of_runInto {sink out : MemorySink} {report : Report}
    (h : runInto schedule style c sink = (.ok report, out)) :
    ∃ g rendered, Succeeds style c g rendered ∧
      out.files = contractArtifact style :: rendered.map (artifact style) ∧
      report = ⟨c.entryPoints.length, g.size, out.filenames⟩ := by
  rw [runInto] at h
  cases hrun : run schedule style c with
  | error fault =>
    rw [hrun] at h
    cases h
  | ok result =>
    obtain ⟨report', files⟩ := result
    rw [hrun] at h
    cases h
    obtain ⟨g, rendered, hs, rfl⟩ := succeeds_of_run hrun
    have hfiles := MemorySink.files_writeAll (hs.filenames_eq ▸ hs.nodup_filenames) sink
    rw [hs.run_eq schedule] at hrun
    cases hrun
    refine ⟨g, rendered, hs, hfiles, ?_⟩
    rw [MemorySink.filenames, hfiles]

/-- A run is all or nothing, and it writes each type once. If it fails, the sink is as it was. If it
succeeds, the sink holds the file of the contract and then that of each discovered type, in the
order of discovery, under pairwise distinct names; the report lists these names and counts the
types. -/
theorem runInto_all_or_nothing (schedule : Schedule) (style : Style) (c : Catalog)
    (sink : MemorySink) :
    (∀ fault out, runInto schedule style c sink = (.error fault, out) → out = sink) ∧
    ∀ report out, runInto schedule style c sink = (.ok report, out) →
      ∃ g rendered, Succeeds style c g rendered ∧
        g.identities.Nodup ∧ (∀ id, id ∈ g.identities ↔ c.Discovers id) ∧
        out.files = contractArtifact style :: rendered.map (artifact style) ∧
        out.filenames = contractFilename :: g.identities.map Identity.filename ∧
        out.filenames.Nodup ∧
        report.files = out.filenames ∧
        report.types + 1 = out.files.length := by
  constructor
  · intro fault out h
    rw [runInto] at h
    cases hrun : run schedule style c with
    | error fault' =>
      rw [hrun] at h
      cases h
      rfl
    | ok result =>
      rw [hrun] at h
      cases h
  · intro report out h
    obtain ⟨g, rendered, hs, hfiles, rfl⟩ := succeeds_of_runInto h
    have hnames : out.filenames = contractFilename :: g.identities.map Identity.filename := by
      rw [MemorySink.filenames, hfiles, hs.filenames_eq]
    have hlength : g.size + 1 = out.files.length := by
      have hlen := congrArg List.length hnames
      rw [MemorySink.filenames, List.length_map] at hlen
      rw [hlen, List.length_cons, List.length_map, Graph.identities, List.length_map, Graph.size]
    refine ⟨g, rendered, hs, nodup_identities hs.discovered,
      mem_identities_iff_reachable hs.discovered, hfiles, hnames, ?_, rfl, hlength⟩
    rw [hnames]
    exact hs.nodup_filenames

end Generation

end ApiTypings
