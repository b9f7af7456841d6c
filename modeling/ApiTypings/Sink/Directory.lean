import ApiTypings.Disk.FileSystem
import ApiTypings.Schedule
import ApiTypings.Sink.Memory

/-!
# Generated files in a directory

A batch replaces whatever the directory holds. Its files are written side by side into a temporary
directory beside the target first; only when all of them are there is the old target moved aside
and the temporary directory put in its place. A batch that fails earlier leaves the target as it
was, and no temporary directory stays behind.
-/

namespace ApiTypings

/-- What the program was doing when an operation on a file failed. -/
inductive DiskAction where
  | read (path : String)
  | create (path : String)
  | stage
  | write (filename : String)
  | park
  | moveAside (root : String)
  | moveInto (staged root : String)
  deriving DecidableEq, Repr

/-- The wording of an action that failed. -/
def DiskAction.message : DiskAction → String
  | read path => "failed to read " ++ path
  | create path => "failed to create " ++ path
  | stage => "failed to create staging directory"
  | write filename => "failed to write " ++ filename
  | park => "failed to create parking directory"
  | moveAside root => "failed to move aside " ++ root
  | moveInto staged root => "failed to move " ++ staged ++ " to " ++ root

/-- An operation on a file that failed, and what it was for. -/
structure DiskFailure where
  action : DiskAction
  fault : DiskFault
  deriving DecidableEq, Repr

/-- The wording of a failure. -/
def DiskFailure.message (f : DiskFailure) : String := f.action.message ++ ": " ++ f.fault.message

namespace DirectorySink

variable {m : Type → Type} [Monad m]

/-- What the names of temporary directories start with. -/
def stagingStem : String := ".shapegen-"

@[inherit_doc stagingStem]
def parkingStem : String := ".shapegen-previous-"

/-- Writes files into a directory, in this order, and gives the failures. Once a file has failed,
only some of the others are still written. -/
def writeEach (fs : FileSystem m) (schedule : Schedule) (directory : String) (failed : Bool) :
    List Artifact → m (List DiskFailure)
  | [] => return []
  | a :: rest => do
    if failed && !schedule.goesOn rest.length then
      writeEach fs schedule directory failed rest
    else
      match ← fs.writeFile (Path.join directory a.filename) a.content.toUTF8 with
      | .ok () => writeEach fs schedule directory failed rest
      | .error fault =>
        let failures ← writeEach fs schedule directory true rest
        return ⟨.write a.filename, fault⟩ :: failures

/-- Writes files into a directory side by side. -/
def writeFiles (fs : FileSystem m) (schedule : Schedule) (directory : String)
    (batch : List Artifact) : m (Except DiskFailure Unit) := do
  return schedule.tell (← writeEach fs schedule directory false (schedule.arrange batch))

/-- Moves the staged directory to `root`. What was there is parked first, and put back if the
move fails. -/
def swapIn (fs : FileSystem m) (staged root parked : String) : m (Except DiskFailure Unit) := do
  if ← fs.isPresent root then
    match ← fs.rename root parked with
    | .error fault => return .error ⟨.moveAside root, fault⟩
    | .ok () =>
      match ← fs.rename staged root with
      | .ok () => return .ok ()
      | .error fault =>
        let _ ← fs.rename parked root
        return .error ⟨.moveInto staged root, fault⟩
  else
    return (← fs.rename staged root).mapError fun fault => ⟨.moveInto staged root, fault⟩

/-- Parks the old target, puts the staged directory in its place and drops what was parked. -/
def replace (fs : FileSystem m) (parent staged root : String) :
    m (Except DiskFailure Unit) := do
  match ← fs.makeTemporary parent parkingStem with
  | .error fault => return .error ⟨.park, fault⟩
  | .ok parking =>
    let result ← swapIn fs staged root (Path.join parking "output")
    fs.removeTree parking
    return result

/-- Replaces the directory `root` by a batch of files. -/
def writeAll (fs : FileSystem m) (schedule : Schedule) (root : String) (batch : List Artifact) :
    m (Except DiskFailure Unit) := do
  let parent := Path.directory root
  match ← fs.makeDirectories parent with
  | .error fault => return .error ⟨.create parent, fault⟩
  | .ok () =>
    match ← fs.makeTemporary parent stagingStem with
    | .error fault => return .error ⟨.stage, fault⟩
    | .ok staging =>
      let result ← do
        match ← writeFiles fs schedule staging batch with
        | .error failure => pure (.error failure)
        | .ok () => replace fs parent staging root
      match result with
      | .ok () => return .ok ()
      | .error failure =>
        fs.removeTree staging
        return .error failure

end DirectorySink

end ApiTypings
