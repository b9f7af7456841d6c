import ApiTypings.CommandLine.Run

/-!
# The command

The operations on files are those of the machine; everything else is decided by
`CommandLine.invoke`.
-/

namespace ApiTypings.Machine

/-- The number of a system error. -/
def errorNumber? : IO.Error → Option UInt32
  | .alreadyExists _ code _ => some code
  | .noFileOrDirectory _ code _ => some code
  | .inappropriateType _ code _ => some code
  | .invalidArgument _ code _ => some code
  | .resourceBusy code _ => some code
  | .unsatisfiedConstraints code _ => some code
  | .noSuchThing _ code _ => some code
  | .illegalOperation code _ => some code
  | .otherError code _ => some code
  | _ => none

/-- The number without its sign; some operations give it as a negative one. -/
def withoutSign (code : UInt32) : UInt32 := if code ≥ 0x80000000 then 0 - code else code

/-- The fault of a system error. -/
def faultOf (e : IO.Error) : DiskFault :=
  match (errorNumber? e).map withoutSign with
  | some 2 => .notFound
  | some 16 => .busy
  | some 17 => .alreadyExists
  | some 20 => .notDirectory
  | some 21 => .isDirectory
  | some 22 => .invalidArgument
  | some 36 => .nameTooLong
  | some 39 => .notEmpty
  | _ => .other (toString e)

/-- Turns an exception into a fault. -/
def guarded {α : Type} (action : IO α) : IO (Except DiskFault α) := do
  try
    return .ok (← action)
  catch e =>
    return .error (faultOf e)

/-- Makes a directory with a temporary name that is not taken, trying one number after the
other. -/
def makeTemporary (directory stem : String) (number : Nat) :
    (tries : Nat) → IO (Except DiskFault String)
  | 0 => return .error .alreadyExists
  | tries + 1 => do
    let path := Path.join directory (Path.temporaryName stem (.ofNumber number))
    match ← guarded (IO.FS.createDir path) with
    | .error .alreadyExists => makeTemporary directory stem (number + 1) tries
    | .error fault => return .error fault
    | .ok () => return .ok path

/-- The operations on files of the machine. -/
def fileSystem : FileSystem IO where
  readFile path := guarded (IO.FS.readBinFile path)
  isPresent path := (System.mkFilePath [path]).pathExists
  isFile path := do
    let file := System.mkFilePath [path]
    return (← file.pathExists) && !(← file.isDir)
  isDirectory path := (System.mkFilePath [path]).isDir
  makeDirectory path := guarded (IO.FS.createDir path)
  makeTemporary directory stem := do
    let current ← IO.currentDir
    makeTemporary (Path.join current.toString directory) stem (← IO.monoNanosNow)
      FileSystem.maxTries
  writeFile path content := guarded (IO.FS.writeBinFile path content)
  rename source target := guarded (IO.FS.rename source target)
  removeTree path := do
    let _ ← guarded (IO.FS.removeDirAll path)

end ApiTypings.Machine

/-- Runs the command with the arguments of the machine. -/
def main (args : List String) : IO UInt32 := do
  let outcome ← ApiTypings.CommandLine.invoke ApiTypings.Machine.fileSystem .inOrder args
  let output ← IO.getStdout
  output.putStr outcome.output
  output.flush
  let errors ← IO.getStderr
  errors.putStr outcome.errors
  return outcome.exitCode.toUInt32
