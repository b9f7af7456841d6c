import ApiTypings.CommandLine.Plan
import ApiTypings.Proofs.Disk.Inversion

/-!
# A run plans, then writes

Running the command is planning followed by writing, on any file system. Planning only reads: from
the configuration file over the catalogs to the generated files, every step leaves the disk as it
is, whatever is on it.
-/

namespace ApiTypings

namespace Disk

variable {α β : Type} {x : StateM Disk α}

/-- A computation that leaves every disk as it is. -/
def ReadOnly (x : StateM Disk α) : Prop := ∀ d, ∃ a, x.run d = (a, d)

namespace ReadOnly

/-- A value reads nothing. -/
theorem pure (a : α) : ReadOnly (pure a) := fun _ => ⟨a, rfl⟩

/-- Reading and then reading more is reading. -/
theorem bind {f : α → StateM Disk β} (hx : ReadOnly x) (hf : ∀ a, ReadOnly (f a)) :
    ReadOnly (x >>= f) := by
  intro d
  obtain ⟨a, ha⟩ := hx d
  rw [run_bind_of_run ha]
  exact hf a d

/-- Reading leaves the disk. -/
theorem run_eq (h : ReadOnly x) (d : Disk) : x.run d = ((x.run d).1, d) := by
  obtain ⟨a, ha⟩ := h d
  rw [ha]

end ReadOnly

/-! ## The operations that read -/

private theorem readOnly_readText (path : String) : ReadOnly (fileSystem.readText path) := by
  have hread : ReadOnly (fileSystem.readFile path) := fun d => ⟨d.readFile path, rfl⟩
  refine hread.bind fun bytes => ?_
  split
  · exact .pure _
  · split <;> exact .pure _

private theorem readOnly_isPresent (path : String) : ReadOnly (fileSystem.isPresent path) :=
  fun d => ⟨d.isPresent path, rfl⟩

private theorem readOnly_isFile (path : String) : ReadOnly (fileSystem.isFile path) :=
  fun d => ⟨d.isFile path, rfl⟩

end Disk

open Disk

namespace Catalog

private theorem readOnly_load (path : String) : ReadOnly (load fileSystem path) := by
  refine (readOnly_readText path).bind fun text => ?_
  split <;> exact .pure _

private theorem readOnly_loadOnto (c : Catalog) (paths : List String) :
    ReadOnly (loadOnto fileSystem c paths) := by
  induction paths generalizing c with
  | nil => exact .pure _
  | cons path paths ih =>
    refine (readOnly_isPresent path).bind fun present => ?_
    split
    · refine (readOnly_load path).bind fun other => ?_
      split
      · exact .pure _
      · split
        · exact .pure _
        · exact ih _
    · exact ih c

end Catalog

namespace CommandLine

private theorem readOnly_loadConfiguration (path : String) :
    ReadOnly (loadConfiguration fileSystem path) := by
  refine (readOnly_readText path).bind fun text => ?_
  split <;> exact .pure _

private theorem readOnly_baseConfiguration (a : Arguments) :
    ReadOnly (baseConfiguration fileSystem a) := by
  rw [baseConfiguration]
  split
  · exact readOnly_loadConfiguration _
  · refine (readOnly_isFile defaultConfigFile).bind fun present => ?_
    split
    · exact readOnly_loadConfiguration _
    · exact .pure _

/-- Settling the configuration only reads. -/
theorem readOnly_configuration (a : Arguments) : ReadOnly (configuration fileSystem a) := by
  refine (readOnly_baseConfiguration a).bind fun base => ?_
  split <;> exact .pure _

/-- Generating only reads. -/
theorem readOnly_generated (schedule : Schedule) (c : Configuration) :
    ReadOnly (generated fileSystem schedule c) := by
  refine (Catalog.readOnly_loadOnto Catalog.empty c.inputs).bind fun catalog => ?_
  split <;> exact .pure _

/-- Planning leaves the disk as it is. -/
theorem readOnly_plan (schedule : Schedule) (a : Arguments) :
    ReadOnly (plan fileSystem schedule a) := by
  refine (readOnly_configuration a).bind fun c => ?_
  split
  · exact .pure _
  · refine (readOnly_generated schedule _).bind fun result => ?_
    split <;> exact .pure _

/-- A plan is made from what is on the disk, which stays as it is. -/
theorem run_plan (schedule : Schedule) (a : Arguments) (d : Disk) :
    (plan fileSystem schedule a).run d = (planned schedule a d, d) :=
  (readOnly_plan schedule a).run_eq d

/-! ## Planning and writing -/

section Monads

variable {m : Type → Type} [Monad m] [LawfulMonad m]

/-- On any file system, a run plans; then a dry run reports, and any other writes first. -/
theorem execute_eq_plan (fs : FileSystem m) (schedule : Schedule) (a : Arguments) :
    execute fs schedule a = do
    match ← plan fs schedule a with
    | .error failure => return .error failure
    | .ok p =>
      if a.dryRun then return .ok p.report
      else
        match ← DirectorySink.writeAll fs schedule p.root p.files with
        | .error failure => return .error (.disk failure)
        | .ok () => return .ok p.report := by
  rw [execute, plan, bind_assoc]
  refine bind_congr fun c => ?_
  cases c with
  | error failure => rw [pure_bind]
  | ok c =>
    rw [bind_assoc]
    refine bind_congr fun result => ?_
    cases result with
    | error failure => rw [pure_bind]
    | ok result =>
      refine Eq.trans ?_ (pure_bind _ _).symm
      rfl

end Monads

variable {schedule : Schedule} {a : Arguments} {d d' : Disk} {p : Plan}

/-- A run that gives up while it plans leaves the disk as it is, dry or not. -/
theorem run_of_failure {failure : Failure} (h : planned schedule a d = .error failure)
    (dry : Bool) :
    (run fileSystem schedule { a with dryRun := dry }).run d =
      ({ exitCode := 1, errors := failure.message ++ "\n" }, d) := by
  have hplan : (plan fileSystem schedule { a with dryRun := dry }).run d = (.error failure, d) :=
    (run_plan schedule a d).trans (by rw [h])
  rw [run, execute_eq_plan, bind_assoc, run_bind_of_run hplan]
  rfl

/-- A dry run with a plan prints what is planned and leaves the disk as it is. -/
theorem run_dry (h : planned schedule a d = .ok p) :
    (run fileSystem schedule { a with dryRun := true }).run d =
      ({ exitCode := 0, output := summary true p.report }, d) := by
  have hplan : (plan fileSystem schedule { a with dryRun := true }).run d = (.ok p, d) :=
    (run_plan schedule a d).trans (by rw [h])
  rw [run, execute_eq_plan, bind_assoc, run_bind_of_run hplan]
  rfl

/-- Any other run with a plan writes the planned files to the planned directory. -/
theorem run_writing (h : planned schedule a d = .ok p) {result : Except DiskFailure Unit}
    (hwrite : (DirectorySink.writeAll fileSystem schedule p.root p.files).run d = (result, d')) :
    (run fileSystem schedule { a with dryRun := false }).run d = (p.outcome result, d') := by
  have hplan : (plan fileSystem schedule { a with dryRun := false }).run d = (.ok p, d) :=
    (run_plan schedule a d).trans (by rw [h])
  rw [run, execute_eq_plan, bind_assoc, run_bind_of_run hplan]
  dsimp only
  rw [if_neg Bool.false_ne_true, bind_assoc, run_bind_of_run hwrite]
  cases result <;> rfl

end CommandLine

end ApiTypings
