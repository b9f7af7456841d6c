import ApiTypings.Catalog.Loading
import ApiTypings.CommandLine.Arguments
import ApiTypings.Config.Basic
import ApiTypings.Generation
import ApiTypings.Sink.Directory

/-!
# Running the command

The arguments change the settings of the configuration file; the catalogs are loaded, the files
generated and, unless the run is a dry one, put into the output directory. Nothing is written
before everything has been generated, and a dry run writes nothing at all.
-/

namespace ApiTypings

/-- Why a run of the command failed. -/
inductive Failure where
  | configuration (fault : ConfigFault)
  | catalog (fault : CatalogFault)
  | generation (fault : GenerationFault)
  | disk (failure : DiskFailure)

/-- The wording of a failure. -/
def Failure.message : Failure → String
  | configuration fault => fault.message
  | catalog fault => fault.message
  | generation fault => fault.message
  | disk failure => failure.message

/-- What a run of the command leaves behind for its caller. -/
structure Outcome where
  exitCode : Nat
  output : String := ""
  errors : String := ""
  deriving DecidableEq, Repr

namespace CommandLine

variable {m : Type → Type} [Monad m]

/-- The configuration file that is read when none is named. -/
def defaultConfigFile : String := "shapegen.toml"

/-- The name and version of the program. -/
def versionText : String := "shapegen 0.3.0\n"

/-- How the program is used. -/
def helpText : String :=
  "Generate TypeScript declarations for the types exposed by web-API controllers\n\n" ++
  "Usage: shapegen [OPTIONS]\n\n" ++
  "Options:\n" ++
  "  -f, --files <PATH>...    Metadata catalogs to load\n" ++
  "  -o, --output <DIR>       Output directory, recreated on every run\n" ++
  "  -m, --module <TYPE>      Import style: `module` or `typescript` (global declarations)\n" ++
  "      --strict-null-check  Map nullable types to `T | null`\n" ++
  "      --newline <STYLE>    Line terminator: `lf` or `crlf`\n" ++
  "  -c, --config <FILE>      Configuration file (defaults to ./shapegen.toml when present)\n" ++
  "      --dry-run            List the files that would be written without touching " ++
  "the output directory\n" ++
  "  -v, --verbose            Debug-level logging unless SHAPEGEN_LOG says otherwise\n" ++
  "  -h, --help               Print help\n" ++
  "  -V, --version            Print version\n"

/-- The wording of a mistake in the arguments. -/
def UsageFault.message : UsageFault → String
  | .unknownArgument => "error: unexpected argument found\n"
  | .tooManyValues => "error: unexpected value found for an option that takes none\n"
  | .invalidValue => "error: a value is required but none was supplied\n"
  | .argumentConflict => "error: an argument cannot be used multiple times\n"
  | .valueValidation => "error: invalid value for an option\n"
  | .displayHelp => helpText
  | .displayVersion => versionText

/-- Reads the configuration of a file. -/
def loadConfiguration (fs : FileSystem m) (path : String) : m (Except Failure Configuration) := do
  match ← fs.readText path with
  | .error fault => return .error (.disk ⟨.read path, fault⟩)
  | .ok text => return (Configuration.parseFile path text).mapError .configuration

/-- The configuration before the arguments change it: that of the named file, of the default
file if it is there, or the defaults. -/
def baseConfiguration (fs : FileSystem m) (a : Arguments) : m (Except Failure Configuration) := do
  match a.config with
  | some path => loadConfiguration fs path
  | none =>
    if ← fs.isFile defaultConfigFile then loadConfiguration fs defaultConfigFile
    else return .ok {}

/-- The configuration with what the arguments ask for. -/
def Arguments.override (a : Arguments) (c : Configuration) : Configuration where
  style := {
    moduleStyle := a.moduleStyle.getD c.style.moduleStyle
    strictNull := a.strictNull || c.style.strictNull
    newline := a.newline.getD c.style.newline }
  outputDir := a.output.getD c.outputDir
  inputs := if a.files.isEmpty then c.inputs else a.files

/-- The configuration of a run; there must be a catalog to read. -/
def configuration (fs : FileSystem m) (a : Arguments) : m (Except Failure Configuration) := do
  match ← baseConfiguration fs a with
  | .error failure => return .error failure
  | .ok base =>
    let c := a.override base
    return if c.inputs.isEmpty then .error (.configuration .noInputs) else .ok c

/-- What a configuration generates: the report and the files. -/
def generated (fs : FileSystem m) (schedule : Schedule) (c : Configuration) :
    m (Except Failure (Report × List Artifact)) := do
  match ← Catalog.loadAll fs c.inputs with
  | .error fault => return .error (.catalog fault)
  | .ok catalog => return (Generation.run schedule c.style catalog).mapError .generation

/-- Generates and, unless the run is a dry one, writes. -/
def execute (fs : FileSystem m) (schedule : Schedule) (a : Arguments) :
    m (Except Failure Report) := do
  match ← configuration fs a with
  | .error failure => return .error failure
  | .ok c =>
    match ← generated fs schedule c with
    | .error failure => return .error failure
    | .ok (report, files) =>
      if a.dryRun then return .ok report
      else
        match ← DirectorySink.writeAll fs schedule c.outputDir files with
        | .error failure => return .error (.disk failure)
        | .ok () => return .ok report

/-- What a successful run prints: the files of a dry run, else a summary. -/
def summary (dryRun : Bool) (report : Report) : String :=
  if dryRun then Text.join "" (report.files.map (· ++ "\n"))
  else
    "Generated " ++ toString report.files.length ++ " files (" ++ toString report.types ++
      " types from " ++ toString report.entryPoints ++ " controllers)\n"

/-- Runs what the arguments ask for. -/
def run (fs : FileSystem m) (schedule : Schedule) (a : Arguments) : m Outcome := do
  match ← execute fs schedule a with
  | .ok report => return { exitCode := 0, output := summary a.dryRun report }
  | .error failure => return { exitCode := 1, errors := failure.message ++ "\n" }

/-- Reads the arguments and runs them. -/
def invoke (fs : FileSystem m) (schedule : Schedule) (args : List String) : m Outcome := do
  match parse args with
  | .ok a => run fs schedule a
  | .error fault =>
    if fault.exitCode = 0 then return { exitCode := 0, output := UsageFault.message fault }
    else return { exitCode := fault.exitCode, errors := UsageFault.message fault }

end CommandLine

end ApiTypings
