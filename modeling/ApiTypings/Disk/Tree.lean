import ApiTypings.Disk.FileSystem

/-!
# A disk as a value

A disk holds files and directories by the names that lead to them from the root; the root itself
is a directory. Paths are walked one component at a time, through existing directories only, and
two dots lead back to the directory above, at the root to the root itself. The operations behave
as those of Linux on a disk without links where everything is permitted. The random endings of
temporary names are part of the disk, in the order in which they will be drawn.
-/

namespace ApiTypings

/-- A file or a directory. -/
inductive DiskNode where
  | file (content : ByteArray)
  | directory
  deriving Inhabited

/-- Whether a node is a directory. -/
def DiskNode.isDirectory : DiskNode → Bool
  | .file _ => false
  | .directory => true

/-- The names that lead from the root to a place. -/
abbrev Place := List String

/-- Files and directories, the directory that relative paths start from, and the endings that
will be drawn for temporary names. -/
structure Disk where
  entries : List (Place × DiskNode) := []
  current : Place := []
  endings : Nat → Ending := Ending.ofNumber

namespace Disk

/-- What is at a place. -/
def at? (d : Disk) (place : Place) : Option DiskNode :=
  if place = [] then some .directory else d.entries.lookup place

/-- The longest name, and the length that a path must stay below, in bytes. -/
def maxName : Nat := 255

@[inherit_doc maxName]
def maxPath : Nat := 4096

/-- Where a path leads: a directory, and the last component in it. -/
structure Target where
  directory : Place
  last : String
  /-- Whether a slash follows the last component. -/
  slash : Bool

/-- Whether the last component is a name, and not one or two dots. -/
def Target.isName (t : Target) : Bool := t.last ≠ "." && t.last ≠ ".."

/-- The place a target stands for, unless its name is too long. -/
def Target.place (t : Target) : Except DiskFault Place :=
  if t.last = "." then .ok t.directory
  else if t.last = ".." then .ok t.directory.dropLast
  else if t.last.utf8ByteSize > maxName then .error .nameTooLong
  else .ok (t.directory ++ [t.last])

/-- One step of a walk, from a directory into the directory a component names. -/
def enter (d : Disk) (place : Place) (component : String) : Except DiskFault Place :=
  if component = "." then .ok place
  else if component = ".." then .ok place.dropLast
  else if component.utf8ByteSize > maxName then .error .nameTooLong
  else
    match d.at? (place ++ [component]) with
    | none => .error .notFound
    | some (.file _) => .error .notDirectory
    | some .directory => .ok (place ++ [component])

/-- Walks a path up to its last component. -/
def resolve (d : Disk) (path : String) : Except DiskFault Target :=
  if path.toList.contains '\x00' then .error .nullCharacter
  else if path = "" then .error .notFound
  else if path.utf8ByteSize ≥ maxPath then .error .nameTooLong
  else
    let parts := Path.components path
    let start := if Path.isAbsolute path then [] else d.current
    match parts.getLast? with
    | none => .ok ⟨[], ".", true⟩
    | some last => do
      let directory ← parts.dropLast.foldlM d.enter start
      return ⟨directory, last, path.toList.getLast? = some '/'⟩

/-- What a path leads to, and its place. -/
def find (d : Disk) (path : String) : Except DiskFault (Place × DiskNode) := do
  let target ← d.resolve path
  let place ← target.place
  match d.at? place with
  | none => .error .notFound
  | some (.file content) =>
    if target.slash then .error .notDirectory else .ok (place, .file content)
  | some .directory => .ok (place, .directory)

/-- The bytes of a file. -/
def readFile (d : Disk) (path : String) : Except DiskFault ByteArray := do
  match (← d.find path).2 with
  | .file content => .ok content
  | .directory => .error .isDirectory

/-- Whether something is there. -/
def isPresent (d : Disk) (path : String) : Bool := (d.find path).isOk

/-- Whether a file is there. -/
def isFile (d : Disk) (path : String) : Bool :=
  match d.find path with
  | .ok (_, node) => !node.isDirectory
  | .error _ => false

/-- Whether a directory is there. -/
def isDirectory (d : Disk) (path : String) : Bool :=
  match d.find path with
  | .ok (_, node) => node.isDirectory
  | .error _ => false

/-- The disk with a new content at a place. -/
def put (d : Disk) (place : Place) (node : DiskNode) : Disk :=
  { d with entries := d.entries.filter (·.1 ≠ place) ++ [(place, node)] }

/-- The disk without a place and everything below it. -/
def cut (d : Disk) (place : Place) : Disk :=
  { d with entries := d.entries.filter fun e => !place.isPrefixOf e.1 }

/-- Whether nothing is below a place. -/
def isEmptyAt (d : Disk) (place : Place) : Bool :=
  d.entries.all fun e => !place.isPrefixOf e.1 || e.1 = place

/-- The disk with a place and everything below it moved. -/
def move (d : Disk) (source target : Place) : Disk :=
  let moved (place : Place) : Place :=
    if source.isPrefixOf place then target ++ place.drop source.length else place
  { d with entries := (d.entries.filter (·.1 ≠ target)).map fun e => (moved e.1, e.2) }

/-- Makes a directory in an existing one. -/
def makeDirectory (d : Disk) (path : String) : Except DiskFault Disk := do
  let place ← (← d.resolve path).place
  match d.at? place with
  | some _ => .error .alreadyExists
  | none => .ok (d.put place .directory)

/-- Writes a file in an existing directory, replacing an old one. A slash at the end of the path
is refused before the name is looked at. -/
def writeFile (d : Disk) (path : String) (content : ByteArray) : Except DiskFault Disk := do
  let target ← d.resolve path
  if target.slash || !target.isName then .error .isDirectory
  else do
    let place ← target.place
    match d.at? place with
    | some .directory => .error .isDirectory
    | _ => .ok (d.put place (.file content))

/-- Whether a moved node may take the place of what is there. -/
def mayReplace (d : Disk) (place : Place) (node : DiskNode) : Except DiskFault Unit :=
  match node, d.at? place with
  | _, none => .ok ()
  | .file _, some (.file _) => .ok ()
  | .file _, some .directory => .error .isDirectory
  | .directory, some (.file _) => .error .notDirectory
  | .directory, some .directory => if d.isEmptyAt place then .ok () else .error .notEmpty

/-- Gives a file or a directory another path. -/
def rename (d : Disk) (source target : String) : Except DiskFault Disk := do
  let source ← d.resolve source
  let target ← d.resolve target
  if !source.isName || !target.isName then .error .busy
  else do
    let old ← source.place
    let new ← target.place
    match d.at? old with
    | none => .error .notFound
    | some node =>
      if !node.isDirectory && (source.slash || target.slash) then .error .notDirectory
      else if old = new then .ok d
      else if old.isPrefixOf new then .error .invalidArgument
      else do
        d.mayReplace new node
        .ok (d.move old new)

/-- Removes a directory and everything in it. -/
def removeTree (d : Disk) (path : String) : Disk :=
  match d.find path with
  | .ok (place, _) => d.cut place
  | .error _ => d

/-- The path from the root that a path stands for. -/
def absolute (d : Disk) (path : String) : String :=
  Path.join ("/" ++ Text.join "/" d.current) path

/-- The disk with other endings in store. -/
def withEndings (d : Disk) (endings : Nat → Ending) : Disk := { d with endings }

/-- The disk when an ending has been drawn. -/
def drawn (d : Disk) : Disk := d.withEndings fun n => d.endings (n + 1)

/-- Makes a directory whose name starts with a stem, drawing endings as long as the names are
taken; gives its path from the root. -/
def makeTemporary (d : Disk) (directory stem : String) :
    (tries : Nat) → Except DiskFault String × Disk
  | 0 => (.error .alreadyExists, d)
  | tries + 1 =>
    let path := Path.join (d.absolute directory) (Path.temporaryName stem (d.endings 0))
    match d.makeDirectory path with
    | .ok made => (.ok path, made.drawn)
    | .error .alreadyExists => d.drawn.makeTemporary directory stem tries
    | .error fault => (.error fault, d.drawn)

/-- The disk after an operation that may fail, which then changes nothing. -/
def attempt (change : Disk → Except DiskFault Disk) : StateM Disk (Except DiskFault Unit) :=
  fun d =>
    match change d with
    | .ok d' => (.ok (), d')
    | .error fault => (.error fault, d)

/-- The operations on files, on a disk as the state. -/
def fileSystem : FileSystem (StateM Disk) where
  readFile path d := (d.readFile path, d)
  isPresent path d := (d.isPresent path, d)
  isFile path d := (d.isFile path, d)
  isDirectory path d := (d.isDirectory path, d)
  makeDirectory path := attempt (·.makeDirectory path)
  makeTemporary directory stem d := d.makeTemporary directory stem FileSystem.maxTries
  writeFile path content := attempt (·.writeFile path content)
  rename source target := attempt (·.rename source target)
  removeTree path d := ((), d.removeTree path)

end Disk

end ApiTypings
