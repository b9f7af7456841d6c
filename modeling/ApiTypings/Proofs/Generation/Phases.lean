import ApiTypings.Generation
import ApiTypings.Proofs.Schedule

/-!
# The phases of a run

A run discovers, checks the file names and renders, in this order, and the first phase that fails
decides how the run fails. A sink sees the files of a run only when all phases succeed, which does
not depend on the schedule.
-/

namespace ApiTypings.Generation

variable {schedule : Schedule} {style : Style} {c : Catalog}

/-- Rendering the nodes side by side succeeds when rendering them one after the other does. -/
theorem renderNodes_eq_ok_iff (schedule : Schedule) {g : Graph}
    {rendered : List Render.Rendered} :
    renderNodes schedule style g = .ok rendered ↔
      g.nodes.mapM (Render.render (context style g)) = .ok rendered :=
  Schedule.gather_map_eq_ok_iff

/-- Under some schedule each node that cannot be rendered is told. -/
theorem exists_renderNodes_eq_error_iff {g : Graph} {e : Unmappable} :
    (∃ schedule, renderNodes schedule style g = .error e) ↔
      ∃ node ∈ g.nodes, Render.render (context style g) node = .error e :=
  Schedule.exists_gather_eq_error_iff

/-- A run whose discovery fails ends with what was not resolved. -/
theorem run_unresolved {e : Unresolved} (h : discover c c.entryPoints = .error e) :
    run schedule style c = .error (.unresolved e) := by
  rw [run, discovered, h]
  rfl

section Discovered

variable {g : Graph} (h : discover c c.entryPoints = .ok g)

include h

/-- A run in which files collide ends with the collision. -/
theorem run_collision {e : Collision} (hcheck : checkFilenames g.identities = .error e) :
    run schedule style c = .error (.collision e) := by
  rw [run, discovered, h]
  change (ofGraph schedule style g >>= _) = _
  rw [ofGraph, hcheck]
  rfl

variable (hcheck : checkFilenames g.identities = .ok ())

include hcheck

/-- A run in which a node is not rendered ends with what could not be mapped. -/
theorem run_unmappable {e : Unmappable} (hrender : renderNodes schedule style g = .error e) :
    run schedule style c = .error (.unmappable e) := by
  rw [run, discovered, h]
  change (ofGraph schedule style g >>= _) = _
  rw [ofGraph, hcheck, hrender]
  rfl

end Discovered

/-- All phases of a run succeed: the graph that is discovered, and what its nodes are rendered
to. -/
structure Succeeds (style : Style) (c : Catalog) (g : Graph) (rendered : List Render.Rendered) :
    Prop where
  discovered : discover c c.entryPoints = .ok g
  checked : checkFilenames g.identities = .ok ()
  rendered : g.nodes.mapM (Render.render (context style g)) = .ok rendered

/-- When all phases succeed, the run gives the files that were rendered, under any schedule. -/
theorem Succeeds.run_eq {g : Graph} {rendered : List Render.Rendered}
    (h : Succeeds style c g rendered) (schedule : Schedule) :
    run schedule style c = .ok (⟨c.entryPoints.length, g.size,
      (contractArtifact style :: rendered.map (artifact style)).map Artifact.filename⟩,
      contractArtifact style :: rendered.map (artifact style)) := by
  rw [run, Generation.discovered, h.discovered]
  change (ofGraph schedule style g >>= _) = _
  rw [ofGraph, h.checked, (renderNodes_eq_ok_iff schedule).mpr h.rendered]
  rfl

/-- A run succeeds on a discovered graph with distinct files when each of its nodes is rendered. -/
theorem exists_succeeds {g : Graph} (h : discover c c.entryPoints = .ok g)
    (hcheck : checkFilenames g.identities = .ok ())
    (hall : ∀ n ∈ g.nodes, ∃ x, Render.render (context style g) n = .ok x) :
    ∃ rendered, Succeeds style c g rendered := by
  obtain ⟨rendered, hrendered⟩ := exists_ok_mapM.mpr hall
  exact ⟨rendered, h, hcheck, hrendered⟩

/-- How a run ends: as its first phase that fails says, or with the files of all nodes. -/
inductive Ends (schedule : Schedule) (style : Style) (c : Catalog) :
    Except GenerationFault (Report × List Artifact) → Prop
  | unresolved (e : Unresolved) (discovery : discover c c.entryPoints = .error e) :
      Ends schedule style c (.error (.unresolved e))
  | collision (g : Graph) (e : Collision) (discovery : discover c c.entryPoints = .ok g)
      (check : checkFilenames g.identities = .error e) :
      Ends schedule style c (.error (.collision e))
  | unmappable (g : Graph) (e : Unmappable) (discovery : discover c c.entryPoints = .ok g)
      (check : checkFilenames g.identities = .ok ())
      (render : renderNodes schedule style g = .error e) :
      Ends schedule style c (.error (.unmappable e))
  | rendered (g : Graph) (rendered : List Render.Rendered)
      (succeeds : Succeeds style c g rendered) :
      Ends schedule style c (.ok (⟨c.entryPoints.length, g.size,
        (contractArtifact style :: rendered.map (artifact style)).map Artifact.filename⟩,
        contractArtifact style :: rendered.map (artifact style)))

/-- A run ends as its phases do. -/
theorem ends_run (schedule : Schedule) (style : Style) (c : Catalog) :
    Ends schedule style c (run schedule style c) := by
  cases hd : discover c c.entryPoints with
  | error e =>
    rw [run_unresolved hd]
    exact .unresolved e hd
  | ok g =>
    cases hcheck : checkFilenames g.identities with
    | error e =>
      rw [run_collision hd hcheck]
      exact .collision g e hd hcheck
    | ok =>
      cases hnodes : renderNodes schedule style g with
      | error e =>
        rw [run_unmappable hd hcheck hnodes]
        exact .unmappable g e hd hcheck hnodes
      | ok rendered =>
        have hs : Succeeds style c g rendered :=
          ⟨hd, hcheck, (renderNodes_eq_ok_iff schedule).mp hnodes⟩
        rw [hs.run_eq schedule]
        exact .rendered g rendered hs

/-- A run that returns files went through all phases. -/
theorem succeeds_of_run {report : Report} {files : List Artifact}
    (h : run schedule style c = .ok (report, files)) : ∃ g rendered, Succeeds style c g rendered ∧
      files = contractArtifact style :: rendered.map (artifact style) := by
  have hends := ends_run schedule style c
  rw [h] at hends
  cases hends with
  | rendered g rendered hs => exact ⟨g, rendered, hs, rfl⟩

/-- A run that succeeds under one schedule gives the same under any other. -/
theorem run_eq_ok_congr {result : Report × List Artifact} (h : run schedule style c = .ok result)
    (schedule' : Schedule) : run schedule' style c = .ok result := by
  obtain ⟨g, rendered, hs, -⟩ := succeeds_of_run h
  rw [hs.run_eq schedule', ← hs.run_eq schedule, h]

/-- What a run tells its caller does not depend on the sink. -/
theorem runInto_fst (schedule : Schedule) (style : Style) (c : Catalog) (sink : MemorySink) :
    (runInto schedule style c sink).1 = (run schedule style c).map Prod.fst := by
  rw [runInto]
  cases run schedule style c <;> rfl

/-- The phases of a run have one outcome. -/
theorem Succeeds.unique {g g' : Graph} {rendered rendered' : List Render.Rendered}
    (h : Succeeds style c g rendered) (h' : Succeeds style c g' rendered') :
    g = g' ∧ rendered = rendered' := by
  have hgraph := h.discovered
  rw [h'.discovered] at hgraph
  cases hgraph
  have hrendered := h.rendered
  rw [h'.rendered] at hrendered
  cases hrendered
  exact ⟨rfl, rfl⟩

/-- A run succeeds when all its phases do. -/
theorem exists_runInto_ok_iff {sink : MemorySink} :
    (∃ report, (runInto schedule style c sink).1 = .ok report) ↔
      ∃ g rendered, Succeeds style c g rendered := by
  rw [runInto_fst]
  constructor
  · rintro ⟨report, h⟩
    cases hrun : run schedule style c with
    | error fault =>
      rw [hrun] at h
      cases h
    | ok result =>
      obtain ⟨g, rendered, hs, _⟩ := succeeds_of_run hrun
      exact ⟨g, rendered, hs⟩
  · rintro ⟨g, rendered, hs⟩
    rw [hs.run_eq schedule]
    exact ⟨_, rfl⟩

end ApiTypings.Generation
