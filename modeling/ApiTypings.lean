import ApiTypings.Graph.Reachable
import ApiTypings.Graph.Worklist
import ApiTypings.Main
import ApiTypings.Disk.Tree
import ApiTypings.Proofs.Discovery.Closure
import ApiTypings.Reference.Grammar
import ApiTypings.Proofs.Reference.Completeness
import ApiTypings.Proofs.Reference.Soundness
import ApiTypings.Proofs.Reference.WellFormed
import ApiTypings.Proofs.Reference.RoundTrip
import ApiTypings.Proofs.Reference.Acceptance
import ApiTypings.Proofs.Naming
import ApiTypings.Proofs.Render.Route
import ApiTypings.Proofs.Builtin
import ApiTypings.Proofs.Render.Mappable
import ApiTypings.Proofs.Render.Mapping
import ApiTypings.Proofs.Render.Writers
import ApiTypings.Proofs.Generation.Phases
import ApiTypings.Proofs.Generation.Success
import ApiTypings.Proofs.Render.Mentions
import ApiTypings.Proofs.Generation.Imports
import ApiTypings.Proofs.Generation.Output
import ApiTypings.Proofs.Keyed
import ApiTypings.Proofs.Catalog.Merging
import ApiTypings.Proofs.Catalog.Loading
import ApiTypings.Proofs.Discovery.Extension
import ApiTypings.Proofs.Render.Locality
import ApiTypings.Proofs.Generation.Stability
import ApiTypings.Proofs.Generation.Order
import ApiTypings.Proofs.Render.Types
import ApiTypings.Proofs.Render.Induction
import ApiTypings.Proofs.Render.Declared
import ApiTypings.Proofs.Render.Keys
import ApiTypings.Proofs.Generation.TypeArguments
import ApiTypings.Proofs.Generation.UsedImports
import ApiTypings.Proofs.Generation.DeclaredNames
import ApiTypings.Proofs.Generation.Scope
import ApiTypings.Proofs.Alike
import ApiTypings.Proofs.Schedule
import ApiTypings.Proofs.Discovery.Precedence
import ApiTypings.Proofs.Discovery.Rediscovery
import ApiTypings.Proofs.Render.Spelling
import ApiTypings.Proofs.Generation.Spelling
import ApiTypings.Proofs.Disk.Path
import ApiTypings.Proofs.Disk.Place
import ApiTypings.Proofs.Disk.Walk
import ApiTypings.Proofs.Disk.Operations
import ApiTypings.Proofs.Disk.Directories
import ApiTypings.Proofs.Disk.Temporary
import ApiTypings.Proofs.Sink.Drawing
import ApiTypings.Proofs.Sink.Staging
import ApiTypings.Proofs.Sink.Swapping
import ApiTypings.Proofs.Sink.Replacing
import ApiTypings.Proofs.Sink.Root
import ApiTypings.Proofs.Sink.Refinement
import ApiTypings.Proofs.Render.Nullability
import ApiTypings.Catalog.History
import ApiTypings.Proofs.Catalog.History
import ApiTypings.Catalog.Description
import ApiTypings.CommandLine.Plan
import ApiTypings.Proofs.Catalog.Decoding
import ApiTypings.Proofs.CommandLine.DryRun
import ApiTypings.Proofs.Render.Scanning
import ApiTypings.Graph.Evaluation
import ApiTypings.Proofs.Discovery.Lookups
import ApiTypings.Proofs.Discovery.Termination
import ApiTypings.Proofs.Discovery.Culprit
import ApiTypings.Proofs.Render.Binding
import ApiTypings.Proofs.Render.Refusal
import ApiTypings.Proofs.Render.Failures
import ApiTypings.Proofs.Render.Parameters
import ApiTypings.Proofs.Render.Shape
import ApiTypings.Proofs.TypeScript.Interface
import ApiTypings.Text.Pieces
import ApiTypings.Proofs.Trimming
import ApiTypings.Proofs.Formatting
import ApiTypings.TypeScript.Outline
import ApiTypings.Proofs.TypeScript.Braces
import ApiTypings.Proofs.Indentation
import ApiTypings.TypeScript.Literal
import ApiTypings.Proofs.TypeScript.Escapes
import ApiTypings.Proofs.TypeScript.Quoted
import ApiTypings.Proofs.TypeScript.Call
import ApiTypings.Proofs.TypeScript.Stretch
import ApiTypings.Proofs.Render.Template
import ApiTypings.Proofs.Catalog.Concatenation
import ApiTypings.Proofs.Collision
import ApiTypings.Proofs.Generation.TypeParameters
import ApiTypings.Proofs.TypeScript.SafeName
import ApiTypings.Proofs.Reference.Cursor
