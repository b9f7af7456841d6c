import ApiTypings.Proofs.Generation.Output
import ApiTypings.Proofs.Generation.Success
import ApiTypings.Proofs.Sink.Written
import ApiTypings.Proofs.TypeScript.SafeName

/-!
# Names of generated files

The file of a type has a safe name and an ending, whatever the type is called. So the path of a
generated file is a single component, and its text can only go into the directory that it is
written to.
-/

namespace ApiTypings

/-- A plain name with the ending of a generated file. -/
def IsGeneratedName (name : String) : Prop :=
  ∃ stem, name = stem ++ ".ts" ∧ ∀ c ∈ stem.toList, TypeScript.isPlainChar c = true

private theorem isGeneratedName_contractFilename : IsGeneratedName contractFilename :=
  ⟨contractName, rfl,
    List.all_eq_true.mp (by decide : contractName.toList.all TypeScript.isPlainChar = true)⟩

/-- The file of a type has a generated name. -/
theorem Identity.isGeneratedName_filename (id : Identity) : IsGeneratedName id.filename :=
  ⟨id.declaredName, rfl, fun _ hc => TypeScript.isPlainChar_of_mem_identifier hc⟩

example : Identity.filename ⟨"Shop", "../Order", 0⟩ = "___Order.ts" := by decide

namespace IsGeneratedName

variable {name : String} (h : IsGeneratedName name)

include h

/-- Only characters of plain names and of the ending stand in a generated name. -/
theorem not_mem {c : Char} (hplain : TypeScript.isPlainChar c = false)
    (hending : c ∉ ".ts".toList) : c ∉ name.toList := by
  obtain ⟨stem, rfl, hstem⟩ := h
  rw [String.toList_append, List.mem_append, not_or]
  refine ⟨fun hc => ?_, hending⟩
  rw [hstem c hc] at hplain
  cases hplain

/-- A generated name is a bare file name. -/
theorem bare : DirectorySink.Bare name := by
  have hlong : 3 ≤ name.toList.length := by
    obtain ⟨stem, rfl, -⟩ := h
    rw [String.toList_append, List.length_append]
    exact Nat.le_add_left ..
  refine ⟨?_, h.not_mem (by decide) (by decide), ?_, ?_⟩
  all_goals
    rintro rfl
    exact absurd hlong (by decide)

end IsGeneratedName

namespace Generation

open TypeScript

variable {schedule : Schedule} {style : Style} {c : Catalog} {report : Report}
  {files : List Artifact}

/-- The files of a run have distinct names, which the report lists. -/
theorem filenames_of_run (h : run schedule style c = .ok (report, files)) :
    report.files = files.map Artifact.filename ∧ (files.map Artifact.filename).Nodup ∧
      ∀ a ∈ files, IsGeneratedName a.filename := by
  obtain ⟨g, rendered, hs, rfl⟩ := succeeds_of_run h
  rw [hs.run_eq schedule] at h
  cases h
  refine ⟨rfl, hs.filenames_eq ▸ hs.nodup_filenames, fun a ha => ?_⟩
  have hname : a.filename ∈ (contractArtifact style :: rendered.map (artifact style)).map
      Artifact.filename := List.mem_map_of_mem ha
  rw [hs.filenames_eq] at hname
  rcases List.mem_cons.mp hname with heq | hname
  · exact heq ▸ isGeneratedName_contractFilename
  · obtain ⟨id, -, heq⟩ := List.mem_map.mp hname
    exact heq ▸ id.isGeneratedName_filename

/-- Whichever files of a run are written into a temporary directory, nothing changes on the disk but
what the directory holds under their names. -/
theorem at?_of_staged {d d₁ d₂ : Disk} {parent staging : String} {writing : Schedule}
    {result : Except DiskFailure Unit} {q : Place} (h : run schedule style c = .ok (report, files))
    (hd : d.WellFormed)
    (hstage : (Disk.fileSystem.makeTemporary parent DirectorySink.stagingStem).run d =
      (.ok staging, d₁))
    (hwrite : (DirectorySink.writeFiles Disk.fileSystem writing staging files).run d₁ =
      (result, d₂))
    (hq : ∀ a ∈ files, q ≠ d₁.leads staging ++ [a.filename]) : d₂.at? q = d₁.at? q := by
  obtain ⟨hmade, hbase⟩ := Disk.base_of_makeTemporary hd DirectorySink.isStem_stagingStem hstage
  obtain ⟨-, -, hnames⟩ := filenames_of_run h
  have hsame := DirectorySink.at?_of_writeFiles hbase hmade (fun a ha => (hnames a ha).bare) hq
    writing
  rwa [hwrite] at hsame

/-- Whatever a name is, making it an identifier makes it safe, and then changes it no more; a name
that it does not change is a safe one. An identifier stands without quotes. The file of a type is
one component of a path, a safe name and an ending; and when the files of a run are written to a
temporary directory, by a run that may fail at any of them, each place on the disk that changes is
that of one of the files in this directory. -/
theorem filenames_safe :
    (∀ name, IsSafe (identifier name) ∧ identifier (identifier name) = identifier name ∧
      (identifier name = name ↔ IsSafe name) ∧ needsQuotes (identifier name) = false) ∧
    (∀ id : Identity, (∃ stem, IsSafe stem ∧ id.filename = stem ++ ".ts") ∧
      DirectorySink.Bare id.filename ∧ '\\' ∉ id.filename.toList ∧
      Path.components id.filename = [id.filename]) ∧
    ∀ schedule style c report files, run schedule style c = .ok (report, files) →
      (∀ a ∈ files, DirectorySink.Bare a.filename) ∧
      ∀ d parent staging d₁ writing result d₂, Disk.WellFormed d →
        (Disk.fileSystem.makeTemporary parent DirectorySink.stagingStem).run d =
          (.ok staging, d₁) →
        (DirectorySink.writeFiles Disk.fileSystem writing staging files).run d₁ = (result, d₂) →
        ∀ q, d₂.at? q ≠ d₁.at? q → ∃ a ∈ files, q = d₁.leads staging ++ [a.filename] := by
  refine ⟨fun name => ?_, fun id => ?_, fun schedule style c report files h => ?_⟩
  · have hsafe := isSafe_identifier name
    exact ⟨hsafe, hsafe.identifier_eq, identifier_eq_self_iff, needsQuotes_identifier name⟩
  · have hname := id.isGeneratedName_filename
    exact ⟨⟨id.declaredName, isSafe_identifier id.name, rfl⟩, hname.bare,
      hname.not_mem (by decide) (by decide), hname.bare.components_eq⟩
  · refine ⟨fun a ha => ((filenames_of_run h).2.2 a ha).bare, ?_⟩
    intro d parent staging d₁ writing result d₂ hd hstage hwrite q hchanged
    by_contra hnone
    exact hchanged (at?_of_staged h hd hstage hwrite fun a ha heq => hnone ⟨a, ha, heq⟩)

/-- The files of a catalog that are staged beside an earlier output. -/
theorem filenames_safe_shop : ∃ report files staging d,
    run .inOrder {} Shop.catalog = .ok (report, files) ∧
    (Disk.fileSystem.makeTemporary "." DirectorySink.stagingStem).run Disk.withOutput =
      (.ok staging, d) ∧ d.leads staging = [".shapegen-000000"] ∧
    ∀ writing result d',
      (DirectorySink.writeFiles Disk.fileSystem writing staging files).run d = (result, d') →
      ∀ q, d'.at? q ≠ d.at? q → ∃ a ∈ files, q = [".shapegen-000000", a.filename] := by
  obtain ⟨rendered, hrendered⟩ := Shop.exists_rendered {}
  have hs : Succeeds {} Shop.catalog Shop.graph rendered := ⟨Shop.discover_eq_graph, rfl, hrendered⟩
  have hrun := hs.run_eq .inOrder
  obtain ⟨-, -, hfiles⟩ := filenames_safe
  obtain ⟨-, hconfined⟩ := hfiles _ _ _ _ _ hrun
  obtain ⟨made, d, hmade⟩ : ∃ made d,
      (Disk.fileSystem.makeTemporary "." DirectorySink.stagingStem).run Disk.withOutput =
        (made, d) := ⟨_, _, rfl⟩
  have hstage : made = .ok "/./.shapegen-000000" :=
    (congrArg Prod.fst hmade).symm.trans (by decide +kernel)
  have hleads : d.leads "/./.shapegen-000000" = [".shapegen-000000"] := by
    obtain rfl := congrArg Prod.snd hmade
    decide +kernel
  subst hstage
  refine ⟨_, _, _, d, hrun, hmade, hleads, fun writing result d' hwrite => ?_⟩
  have hchanged := hconfined _ _ _ _ writing _ _ Disk.wellFormed_withOutput hmade hwrite
  rwa [hleads] at hchanged

end Generation

end ApiTypings
