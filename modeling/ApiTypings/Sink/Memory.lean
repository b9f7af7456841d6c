/-!
# Generated files in memory

An artifact is a named text. A sink in memory holds the artifacts of the last batch it was
given, in order of their first appearance; when a batch repeats a name, the last text counts.
-/

namespace ApiTypings

/-- A generated file. -/
structure Artifact where
  filename : String
  content : String
  deriving DecidableEq, Repr, Inhabited

/-- The files of the last batch. -/
structure MemorySink where
  files : List Artifact := []
  deriving DecidableEq, Repr, Inhabited

namespace MemorySink

/-- Gives a name its text: in its old place if it has one, else at the end. -/
def put (a : Artifact) : List Artifact → List Artifact
  | [] => [a]
  | b :: bs => if b.filename = a.filename then a :: bs else b :: put a bs

/-- Replaces everything by a batch. -/
def writeAll (_ : MemorySink) (batch : List Artifact) : MemorySink :=
  ⟨batch.foldl (fun files a => put a files) []⟩

/-- The text of a name. -/
def get? (sink : MemorySink) (filename : String) : Option String :=
  (sink.files.find? (·.filename = filename)).map Artifact.content

/-- The names of the files, in order. -/
def filenames (sink : MemorySink) : List String := sink.files.map Artifact.filename

end MemorySink

end ApiTypings
