import ApiTypings.Disk.Path

/-!
# Operations on files

What the program asks of a file system, as a record of operations in some monad, and the faults
they may end in. Everything that reads or writes files is written over this record; a disk as a
value and the machine's own disk are two instances of it.
-/

namespace ApiTypings

/-- Why an operation on a file failed. -/
inductive DiskFault where
  | notFound
  | alreadyExists
  | notDirectory
  | isDirectory
  | busy
  | notEmpty
  | invalidArgument
  | nameTooLong
  | notUtf8
  /-- The path holds a null character. -/
  | nullCharacter
  | other (message : String)
  deriving DecidableEq, Repr

/-- The wording of a fault. -/
def DiskFault.message : DiskFault → String
  | notFound => "No such file or directory (os error 2)"
  | alreadyExists => "File exists (os error 17)"
  | notDirectory => "Not a directory (os error 20)"
  | isDirectory => "Is a directory (os error 21)"
  | busy => "Device or resource busy (os error 16)"
  | notEmpty => "Directory not empty (os error 39)"
  | invalidArgument => "Invalid argument (os error 22)"
  | nameTooLong => "File name too long (os error 36)"
  | notUtf8 => "stream did not contain valid UTF-8"
  | nullCharacter => "file name contained an unexpected NUL byte"
  | other message => message

/-- The operations on files that the program uses. -/
structure FileSystem (m : Type → Type) where
  /-- The bytes of a file. -/
  readFile : String → m (Except DiskFault ByteArray)
  /-- Whether something is there. -/
  isPresent : String → m Bool
  isFile : String → m Bool
  isDirectory : String → m Bool
  /-- Makes a directory in an existing one. -/
  makeDirectory : String → m (Except DiskFault Unit)
  /-- Makes a directory in `directory` under a name that starts with a stem and is not taken;
  gives its path from the root. -/
  makeTemporary : (directory stem : String) → m (Except DiskFault String)
  /-- Writes a file in an existing directory, replacing an old one. -/
  writeFile : String → ByteArray → m (Except DiskFault Unit)
  rename : (source target : String) → m (Except DiskFault Unit)
  /-- Removes a directory and everything in it. -/
  removeTree : String → m Unit

namespace FileSystem

variable {m : Type → Type} [Monad m]

/-- How many names are tried for a temporary directory. -/
def maxTries : Nat := 65536

/-- The text of a file. -/
def readText (fs : FileSystem m) (path : String) : m (Except DiskFault String) := do
  match ← fs.readFile path with
  | .error fault => return .error fault
  | .ok bytes =>
    match String.fromUTF8? bytes with
    | some text => return .ok text
    | none => return .error .notUtf8

/-- Makes a directory, unless it is there already. -/
def ensureDirectory (fs : FileSystem m) (path : String) : m (Except DiskFault Unit) := do
  match ← fs.makeDirectory path with
  | .ok () => return .ok ()
  | .error fault => return if ← fs.isDirectory path then .ok () else .error fault

/-- Makes a directory and those it stands in, as far as they are missing. -/
def makeDirectories (fs : FileSystem m) (path : String) : m (Except DiskFault Unit) := do
  if path = "" then return .ok ()
  match ← fs.ensureDirectory path with
  | .error .notFound =>
    match Path.parent? path with
    | none => return .error .notFound
    | some parent =>
      if parent.length < path.length then
        match ← fs.makeDirectories parent with
        | .error fault => return .error fault
        | .ok () => fs.ensureDirectory path
      else return .error .notFound
  | result => return result
termination_by path.length

end FileSystem

end ApiTypings
