import ApiTypings.CommandLine.Run
import ApiTypings.Disk.Tree

/-!
# What a run is about to write

Before anything is written, a run has found out where its files go and what they are. Whether it is
a dry run has no part in that; a dry run only stops there.
-/

namespace ApiTypings

/-- The lines of the output, each of which a line break ends. -/
def Outcome.lines (o : Outcome) : List String :=
  (Text.split '\n' o.output.toList).dropLast.map String.ofList

/-- What a run is about to write. -/
structure Plan where
  /-- The directory that the files go to. -/
  root : String
  report : Report
  files : List Artifact

/-- How a run ends that has written its files, or could not. -/
def Plan.outcome (p : Plan) : Except DiskFailure Unit → Outcome
  | .ok () => { exitCode := 0, output := CommandLine.summary false p.report }
  | .error failure => { exitCode := 1, errors := (Failure.disk failure).message ++ "\n" }

namespace CommandLine

variable {m : Type → Type} [Monad m]

/-- Finds out what to write: everything that a run does before its files are written. -/
def plan (fs : FileSystem m) (schedule : Schedule) (a : Arguments) : m (Except Failure Plan) := do
  match ← configuration fs a with
  | .error failure => return .error failure
  | .ok c =>
    match ← generated fs schedule c with
    | .error failure => return .error failure
    | .ok (report, files) => return .ok ⟨c.outputDir, report, files⟩

/-- What a run on a disk is about to write, or why it gives up before. -/
def planned (schedule : Schedule) (a : Arguments) (d : Disk) : Except Failure Plan :=
  ((plan Disk.fileSystem schedule a).run d).1

end CommandLine

end ApiTypings
