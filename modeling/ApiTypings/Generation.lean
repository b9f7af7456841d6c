import ApiTypings.Graph.Discovery
import ApiTypings.Layout
import ApiTypings.Render.Rule
import ApiTypings.Schedule
import ApiTypings.Sink.Memory

/-!
# Generation

A run discovers the types that the controllers of a catalog reach, checks that each has a file
of its own, and writes them in the order of their discovery, after the contract. The types are
rendered side by side, so that of several that cannot be written any one may be told. Nothing is
handed on unless every type could be written.
-/

namespace ApiTypings

/-- Why a run gave up. -/
inductive GenerationFault where
  | unresolved (fault : Unresolved)
  | collision (fault : Collision)
  | unmappable (fault : Unmappable)

/-- The wording of a fault. -/
def GenerationFault.message : GenerationFault → String
  | unresolved fault => fault.message
  | collision fault => fault.message
  | unmappable fault => fault.message

/-- What a successful run tells about itself. -/
structure Report where
  /-- The number of controllers. -/
  entryPoints : Nat
  /-- The number of discovered types. -/
  types : Nat
  /-- The names of the files, in order. -/
  files : List String
  deriving DecidableEq, Repr

namespace Generation

/-- What the writers of a run share. -/
def context (style : Style) (g : Graph) : Render.Context := ⟨style.moduleStyle, style.strictNull, g⟩

/-- The file of the contract. -/
def contractArtifact (style : Style) : Artifact :=
  ⟨contractFilename, Layout.format (Render.contractFile style.moduleStyle).lines style.newline⟩

/-- The file of a rendered type. -/
def artifact (style : Style) (r : Render.Rendered) : Artifact :=
  ⟨r.identity.filename, Layout.format r.lines style.newline⟩

/-- The nodes of a graph, rendered side by side. -/
def renderNodes (schedule : Schedule) (style : Style) (g : Graph) :
    Except Unmappable (List Render.Rendered) :=
  schedule.gather (g.nodes.map (Render.render (context style g)))

/-- The files of a graph: the contract, then one for each node in order. -/
def ofGraph (schedule : Schedule) (style : Style) (g : Graph) :
    Except GenerationFault (List Artifact) := do
  (checkFilenames g.identities).mapError .collision
  let rendered ← (renderNodes schedule style g).mapError .unmappable
  return contractArtifact style :: rendered.map (artifact style)

/-- The graph that entry points reach. -/
def discovered (c : Catalog) (entryPoints : List Identity) : Except GenerationFault Graph :=
  (discover c entryPoints).mapError .unresolved

/-- The files of everything that entry points reach. -/
def ofEntryPoints (schedule : Schedule) (style : Style) (c : Catalog)
    (entryPoints : List Identity) : Except GenerationFault (List Artifact) := do
  ofGraph schedule style (← discovered c entryPoints)

/-- The report and the files of a run from the controllers of a catalog. -/
def run (schedule : Schedule) (style : Style) (c : Catalog) :
    Except GenerationFault (Report × List Artifact) := do
  let graph ← discovered c c.entryPoints
  let files ← ofGraph schedule style graph
  return (⟨c.entryPoints.length, graph.size, files.map Artifact.filename⟩, files)

/-- A run whose files go into a sink in memory; a failed run leaves the sink as it was. -/
def runInto (schedule : Schedule) (style : Style) (c : Catalog) (sink : MemorySink) :
    Except GenerationFault Report × MemorySink :=
  match run schedule style c with
  | .error fault => (.error fault, sink)
  | .ok (report, files) => (.ok report, sink.writeAll files)

end Generation

end ApiTypings
