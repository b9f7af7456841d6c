import ApiTypings.Proofs.CommandLine.Planning
import ApiTypings.Proofs.Generation.Filenames
import ApiTypings.Proofs.Generation.Order

/-!
# Dry runs

A dry run stops where any other run starts to write, so the files it lists are those that the other
run writes. The names can be read back from the lines it prints, since no name holds a line break;
and they are told apart by the directory as they are in the list, since no name holds a slash.
-/

namespace ApiTypings

/-! ## Listings -/

namespace Text

private theorem join_empty_cons (s : String) (rest : List String) :
    join "" (s :: rest) = s ++ join "" rest := by
  cases rest with
  | nil => rw [join, join, String.append_empty]
  | cons t rest => rw [join, String.append_empty]

/-- Lines that are printed one after the other are the pieces between the line breaks. -/
theorem split_lines {names : List String} (h : ∀ s ∈ names, '\n' ∉ s.toList) :
    split '\n' (join "" (names.map (· ++ "\n"))).toList = names.map String.toList ++ [[]] := by
  induction names with
  | nil => rfl
  | cons s names ih =>
    rw [List.forall_mem_cons] at h
    have hbreak : (s ++ "\n" ++ join "" (names.map (· ++ "\n"))).toList =
        s.toList ++ '\n' :: (join "" (names.map (· ++ "\n"))).toList := by
      simp
    rw [List.map_cons, join_empty_cons, hbreak, split_append_cons, split_of_not_mem h.1, ih h.2]
    rfl

end Text

/-- The lines of a listing are what it lists. -/
theorem Outcome.lines_listing {o : Outcome} {names : List String}
    (ho : o.output = Text.join "" (names.map (· ++ "\n"))) (h : ∀ s ∈ names, '\n' ∉ s.toList) :
    o.lines = names := by
  rw [lines, ho, Text.split_lines h, List.dropLast_concat, List.map_map]
  exact List.map_id'' (fun s => String.ofList_toList) names

namespace CommandLine

open Disk

variable {schedule : Schedule} {a : Arguments} {d d' : Disk} {p : Plan}

/-- What a configuration generates has been generated from a catalog that was loaded. -/
theorem of_generated {c : Configuration} {result : Report × List Artifact}
    (h : (generated fileSystem schedule c).run d = (.ok result, d')) :
    ∃ catalog, (Catalog.loadAll fileSystem c.inputs).run d = (.ok catalog, d') ∧
      Generation.run schedule c.style catalog = .ok result := by
  rw [generated] at h
  obtain ⟨loaded, d₁, hload, h⟩ := of_run_bind h
  split at h
  · cases h
  next catalog =>
  obtain ⟨hresult, rfl⟩ := Prod.mk.inj h
  exact ⟨catalog, hload, mapError_eq_ok_iff.mp hresult⟩

/-- What is planned has been generated from the catalogs of a configuration. -/
theorem of_planned (h : planned schedule a d = .ok p) :
    ∃ c d₁ catalog d₂, (configuration fileSystem a).run d = (.ok c, d₁) ∧
      (Catalog.loadAll fileSystem c.inputs).run d₁ = (.ok catalog, d₂) ∧
      Generation.run schedule c.style catalog = .ok (p.report, p.files) ∧ p.root = c.outputDir := by
  have hplan := run_plan schedule a d
  rw [h, plan] at hplan
  obtain ⟨c, d₁, hc, hplan⟩ := of_run_bind hplan
  split at hplan
  · cases hplan
  next c =>
  obtain ⟨result, d₂, hgenerated, hplan⟩ := of_run_bind hplan
  split at hplan
  · cases hplan
  cases hplan
  obtain ⟨catalog, hload, hrun⟩ := of_generated hgenerated
  exact ⟨c, d₁, catalog, _, hc, hload, hrun, rfl⟩

/-- What a configuration with a catalog that can be loaded plans. -/
theorem planned_of_run {c : Configuration} {d₁ d₂ : Disk} {catalog : Catalog} {report : Report}
    {files : List Artifact} (hc : (configuration fileSystem a).run d = (.ok c, d₁))
    (hload : (Catalog.loadAll fileSystem c.inputs).run d₁ = (.ok catalog, d₂))
    (hrun : Generation.run schedule c.style catalog = .ok (report, files)) :
    planned schedule a d = .ok ⟨c.outputDir, report, files⟩ := by
  have hgenerated : (generated fileSystem schedule c).run d₁ = (.ok (report, files), d₂) := by
    rw [generated, run_bind_of_run hload]
    dsimp only
    rw [hrun]
    rfl
  rw [planned, plan, run_bind_of_run hc]
  dsimp only
  rw [run_bind_of_run hgenerated]
  rfl

/-- What is planned under one schedule is planned under any other. -/
theorem planned_congr (h : planned schedule a d = .ok p) (schedule' : Schedule) :
    planned schedule' a d = .ok p := by
  obtain ⟨c, d₁, catalog, d₂, hc, hload, hrun, hroot⟩ := of_planned h
  rw [planned_of_run hc hload (Generation.run_eq_ok_congr hrun schedule'), ← hroot]

/-- A dry run with a plan lists the names of the planned files. -/
theorem lines_run_dry (h : planned schedule a d = .ok p) :
    ((run fileSystem schedule { a with dryRun := true }).run d).1.lines =
      p.files.map Artifact.filename := by
  obtain ⟨c, d₁, catalog, d₂, -, -, hrun, -⟩ := of_planned h
  obtain ⟨hreport, -, hnames⟩ := Generation.filenames_of_run hrun
  rw [run_dry h, ← hreport]
  refine Outcome.lines_listing rfl fun s hs => ?_
  rw [hreport] at hs
  obtain ⟨file, hfile, rfl⟩ := List.mem_map.mp hs
  exact (hnames file hfile).not_mem (by decide) (by decide)

/-- The planned files have names of their own. -/
theorem nodup_of_planned (h : planned schedule a d = .ok p) :
    (p.files.map Artifact.filename).Nodup := by
  obtain ⟨c, d₁, catalog, d₂, -, -, hrun, -⟩ := of_planned h
  exact (Generation.filenames_of_run hrun).2.1

/-- When the planned files have been written, the planned directory holds exactly these files. -/
theorem under_of_planned (h : planned schedule a d = .ok p) (hd : d.WellFormed)
    (hcurrent : d.at? d.current = some .directory)
    (hwrite : (DirectorySink.writeAll fileSystem schedule p.root p.files).run d = (.ok (), d')) :
    d'.under p.root = (MemorySink.mk p.files).tree := by
  obtain ⟨c, d₁, catalog, d₂, -, -, hrun, -⟩ := of_planned h
  obtain ⟨-, hdistinct, hnames⟩ := Generation.filenames_of_run hrun
  rw [DirectorySink.under_of_writeAll hd hcurrent (fun file hfile => (hnames file hfile).bare)
    hdistinct hwrite {}]
  exact congrArg (fun files => (MemorySink.mk files).tree) (MemorySink.files_writeAll hdistinct {})

/-- A run that gives up before it writes ends with 1, and like any dry run it leaves the disk as it
is. A dry run ends with 0 and lists names just when the same run, if it were not dry, would write
files of these names, in this order, to the output directory, however the work of either run is
scheduled; should it succeed in that, it ends with 0, and on a disk whose entries all stand in
directories, the current one among them, the output directory then holds exactly these files, each
under a name of its own. -/
theorem dryRun_predicts (a : Arguments) (d : Disk) :
    (∀ schedule failure, planned schedule a d = .error failure →
      ∀ dry, (run fileSystem schedule { a with dryRun := dry }).run d =
        ({ exitCode := 1, errors := failure.message ++ "\n" }, d)) ∧
    (∀ schedule, ((run fileSystem schedule { a with dryRun := true }).run d).2 = d) ∧
    (∀ schedule schedule' names,
      (((run fileSystem schedule { a with dryRun := true }).run d).1.exitCode = 0 ∧
        ((run fileSystem schedule { a with dryRun := true }).run d).1.lines = names) ↔
      ∃ p, planned schedule' a d = .ok p ∧ p.files.map Artifact.filename = names) ∧
    ∀ schedule p, planned schedule a d = .ok p →
      ∀ result d',
        (DirectorySink.writeAll fileSystem schedule p.root p.files).run d = (result, d') →
        (run fileSystem schedule { a with dryRun := false }).run d = (p.outcome result, d') ∧
        (result = .ok () →
          (p.outcome result).exitCode = 0 ∧ (p.files.map Artifact.filename).Nodup ∧
          (d.WellFormed → d.at? d.current = some .directory →
            d'.under p.root = (MemorySink.mk p.files).tree)) := by
  refine ⟨fun schedule failure h dry => run_of_failure h dry, fun schedule => ?_,
    fun schedule schedule' names => ?_, ?_⟩
  · cases h : planned schedule a d with
    | error failure => rw [run_of_failure h true]
    | ok p => rw [run_dry h]
  · cases h : planned schedule a d with
    | error failure =>
      rw [run_of_failure h true]
      constructor
      · rintro ⟨hcode, -⟩
        cases hcode
      · rintro ⟨p, hp, -⟩
        rw [planned_congr hp schedule] at h
        cases h
    | ok p =>
      rw [lines_run_dry h, run_dry h, planned_congr h schedule']
      constructor
      · rintro ⟨-, hnames⟩
        exact ⟨p, rfl, hnames⟩
      · rintro ⟨_, ⟨⟩, hnames⟩
        exact ⟨rfl, hnames⟩
  · intro schedule p h result d' hwrite
    refine ⟨run_writing h hwrite, ?_⟩
    rintro rfl
    exact ⟨rfl, nodup_of_planned h, fun hd hcurrent => under_of_planned h hd hcurrent hwrite⟩

end CommandLine

/-! ## A run on the shop -/

namespace Shop

open Disk CommandLine

/-- Arguments that name the three documents. -/
def arguments (dryRun : Bool) : Arguments := { files := paths, output := some "out", dryRun }

/-- The names of the files that the documents lead to. -/
def filenames : List String :=
  ["IRestApi.ts", "OrdersController.ts", "Order.ts", "StatusController.ts"]

private theorem wellFormed_disk : disk.WellFormed := by
  have hput : ∀ {d : Disk} {name : String} {content : ByteArray}, d.WellFormed → IsName name →
      d.at? [name] = none → (d.put [name] (.file content)).WellFormed := by
    intro d name content hd hname hat
    have hroot : d.at? [] = some .directory := rfl
    exact hd.put hroot hname (.inr (by rw [List.nil_append, hat]; simp))
  have horder : IsName "order.json" := by constructor <;> decide
  have horders : IsName "orders.json" := by constructor <;> decide
  have hstatus : IsName "status.json" := by constructor <;> decide
  exact hput (hput (hput wellFormed_withOutput horder rfl) horders rfl) hstatus rfl

private theorem at?_disk {name : String} (hname : name ∉ "out" :: paths) :
    disk.at? [name] = none := by
  simp only [paths, List.mem_cons, List.not_mem_nil, or_false, not_or] at hname
  obtain ⟨hout, horder, horders, hstatus⟩ := hname
  rw [disk, at?_put (by simp), if_neg (by simp [hstatus]), at?_put (by simp),
    if_neg (by simp [horders]), at?_put (by simp), if_neg (by simp [horder])]
  exact at?_withOutput hout

private theorem replaceable_disk : disk.Replaceable "out" where
  wellFormed := wellFormed_disk
  null := by decide
  short := by decide
  shortNames := by decide
  named := ⟨"out", rfl, by decide⟩
  origin := rfl
  passable := by
    intro q hq
    obtain rfl := List.mem_singleton.mp hq
    exact .inr rfl
  apart := by decide

/-- No entry has a temporary name. -/
theorem temporaryName_not_mem {stem : String}
    (hstem : stem ∈ [DirectorySink.stagingStem, DirectorySink.parkingStem]) (ending : Ending) :
    Path.temporaryName stem ending ∉ "out" :: paths := by
  have hsize : ∀ stem ∈ [DirectorySink.stagingStem, DirectorySink.parkingStem],
      ∀ name ∈ "out" :: paths, name.utf8ByteSize ≠ stem.utf8ByteSize + 6 := by decide
  exact fun hmem => Path.temporaryName_ne (hsize stem hstem _ hmem) rfl

private theorem plain_of_filenames {files : List Artifact}
    (h : files.map Artifact.filename = filenames) : Plain files where
  isName := by
    have hnames : ∀ name ∈ filenames, IsName name := by
      refine List.forall_mem_cons.mpr ⟨?_, List.forall_mem_cons.mpr ⟨?_, List.forall_mem_cons.mpr
        ⟨?_, List.forall_mem_singleton.mpr ?_⟩⟩⟩
      all_goals constructor <;> decide
    exact fun a ha => hnames _ (h ▸ List.mem_map_of_mem ha)
  distinct := by
    rw [h]
    decide

private theorem hasRoom_disk {files : List Artifact} (h : files.map Artifact.filename = filenames) :
    DirectorySink.HasRoom disk (disk.site "out") files := by
  have hcomponents : Path.components "out" = ["out"] := by decide +kernel
  have hshort : ∀ name ∈ filenames,
      (disk.site "out").base.utf8ByteSize + 30 + name.utf8ByteSize < maxPath := by decide +kernel
  rw [← h] at hshort
  refine .of_nothing (fun stem hstem number hmem => ?_)
    (fun stem hstem number => at?_disk (temporaryName_not_mem hstem _)) (by decide +kernel)
    (List.forall_mem_map.mp hshort)
  change _ ∈ Path.components "out" at hmem
  rw [hcomponents] at hmem
  exact temporaryName_not_mem hstem _ (List.mem_cons.mpr (.inl (List.mem_singleton.mp hmem)))

/-- Every plan for the shop writes the four files in order. -/
theorem exists_planned (schedule : Schedule) : ∃ report files,
    planned schedule (arguments false) disk = .ok ⟨"out", report, files⟩ ∧
      files.map Artifact.filename = filenames := by
  have hc : (configuration fileSystem (arguments false)).run disk =
      (.ok { outputDir := "out", inputs := paths }, disk) := rfl
  have hload : (Catalog.loadAll fileSystem paths).run disk = (.ok statusCatalog, disk) := by
    rw [← loadAll_paths]
    exact Catalog.gives_loadOnto disk Catalog.empty paths
  obtain ⟨rendered, hs⟩ := statusSucceeds
  exact ⟨_, _, planned_of_run hc hload (hs.run_eq schedule), hs.filenames_eq.trans rfl⟩

/-- A dry run on the three documents lists four files, and another run replaces the earlier output
by them. -/
theorem dryRun_disk :
    ((run fileSystem .backwards (arguments true)).run disk).1.exitCode = 0 ∧
    ((run fileSystem .backwards (arguments true)).run disk).1.lines = filenames ∧
    ∃ p d', planned .inOrder (arguments false) disk = .ok p ∧ p.root = "out" ∧
      p.files.map Artifact.filename = filenames ∧
      (run fileSystem .inOrder (arguments false)).run disk = (p.outcome (.ok ()), d') ∧
      (p.outcome (.ok ())).exitCode = 0 ∧ d'.under "out" = (MemorySink.mk p.files).tree := by
  obtain ⟨report, files, hplanned, hnames⟩ := exists_planned .inOrder
  obtain ⟨-, -, hlisted, hwritten⟩ := dryRun_predicts (arguments false) disk
  have hdry := (hlisted .backwards .inOrder filenames).mpr ⟨_, hplanned, hnames⟩
  have hplain := plain_of_filenames hnames
  obtain ⟨result, tree, d', hwrite, heffect, -⟩ :=
    DirectorySink.writeAll_rewrites replaceable_disk hplain.staysInside (hasRoom_disk hnames)
      .inOrder
  cases heffect with
  | failed name fault hnot => exact absurd hplain hnot
  | written =>
    obtain ⟨hrun, hholds⟩ := hwritten .inOrder _ hplanned _ _ hwrite
    obtain ⟨hexit, -, hunder⟩ := hholds rfl
    simp only [arguments] at hdry hplanned hrun ⊢
    exact ⟨hdry.1, hdry.2, _, d', hplanned, rfl, hnames, hrun, hexit, hunder wellFormed_disk rfl⟩

end Shop

end ApiTypings
