import ApiTypings.Config.Style

/-!
# Arguments of the command

Options have a long name, some a letter as well; letters may be run together. The value of an
option follows it as the next argument or is attached, to a long name after an equals sign, to a
letter directly or after one. The option for catalogs takes every argument up to the next option
and may be repeated; all others may be given once. The first mistake in the order of reading is
reported, except that the value of an option is only looked at once the next option is
recognised or the arguments end.
-/

namespace ApiTypings.CommandLine

/-- What the arguments ask for. -/
structure Arguments where
  /-- The catalogs to read. -/
  files : List String := []
  output : Option String := none
  moduleStyle : Option ModuleStyle := none
  strictNull : Bool := false
  newline : Option Newline := none
  config : Option String := none
  /-- Whether to list the files only. -/
  dryRun : Bool := false
  verbose : Bool := false
  deriving DecidableEq, Repr, Inhabited

/-- Why the arguments are not run: a mistake, or a question about the program. -/
inductive UsageFault where
  | unknownArgument
  | tooManyValues
  | invalidValue
  | argumentConflict
  | valueValidation
  | displayHelp
  | displayVersion
  deriving DecidableEq, Repr

/-- A question is no failure. -/
def UsageFault.exitCode : UsageFault → Nat
  | displayHelp | displayVersion => 0
  | _ => 2

/-- An option that takes values. -/
inductive Setting where
  | files
  | output
  | moduleStyle
  | newline
  | config
  deriving DecidableEq, Repr

/-- An option without a value. -/
inductive Flag where
  | strictNull
  | dryRun
  | verbose
  | help
  | version
  deriving DecidableEq, Repr

/-- What a name of an option stands for. -/
inductive OptionName where
  | setting (s : Setting)
  | flag (f : Flag)
  deriving DecidableEq, Repr

/-- The option of a long name. -/
def OptionName.ofLong? : String → Option OptionName
  | "files" => some (setting .files)
  | "output" => some (setting .output)
  | "module" => some (setting .moduleStyle)
  | "newline" => some (setting .newline)
  | "config" => some (setting .config)
  | "strict-null-check" => some (flag .strictNull)
  | "dry-run" => some (flag .dryRun)
  | "verbose" => some (flag .verbose)
  | "help" => some (flag .help)
  | "version" => some (flag .version)
  | _ => none

/-- The option of a letter. -/
def OptionName.ofLetter? : Char → Option OptionName
  | 'f' => some (setting .files)
  | 'o' => some (setting .output)
  | 'm' => some (setting .moduleStyle)
  | 'c' => some (setting .config)
  | 'v' => some (flag .verbose)
  | 'h' => some (flag .help)
  | 'V' => some (flag .version)
  | _ => none

namespace Arguments

/-- Sets what may be set once. -/
def setOnce {α : Type} (slot : Option α) (value : Except UsageFault α) :
    Except UsageFault (Option α) :=
  match slot with
  | some _ => .error .argumentConflict
  | none => value.map some

/-- A path, which must not be empty. -/
def path (text : String) : Except UsageFault String :=
  if text = "" then .error .invalidValue else .ok text

/-- Gives a setting its values, of which there must be at least one. -/
def give (a : Arguments) (s : Setting) (values : List String) : Except UsageFault Arguments :=
  match values with
  | [] => .error .invalidValue
  | value :: rest =>
    match s with
    | .files => ((value :: rest).mapM path).map fun paths => { a with files := a.files ++ paths }
    | .output => (setOnce a.output (path value)).map fun x => { a with output := x }
    | .config => (setOnce a.config (path value)).map fun x => { a with config := x }
    | .moduleStyle =>
      (setOnce a.moduleStyle ((ModuleStyle.parse value).mapError fun _ => .valueValidation)).map
        fun x => { a with moduleStyle := x }
    | .newline =>
      (setOnce a.newline ((Newline.parse value).mapError fun _ => .valueValidation)).map
        fun x => { a with newline := x }

/-- Raises a flag, which may be done once; a question ends the reading. -/
def raise (a : Arguments) : Flag → Except UsageFault Arguments
  | .strictNull =>
    if a.strictNull then .error .argumentConflict else .ok { a with strictNull := true }
  | .dryRun => if a.dryRun then .error .argumentConflict else .ok { a with dryRun := true }
  | .verbose => if a.verbose then .error .argumentConflict else .ok { a with verbose := true }
  | .help => .error .displayHelp
  | .version => .error .displayVersion

end Arguments

/-- How far the arguments are read: what they ask for, and the setting whose values are being
collected. -/
structure Reading where
  given : Arguments := {}
  pending : Option (Setting × List String) := none

namespace Reading

/-- Gives the pending setting the values collected for it. -/
def settle (r : Reading) : Except UsageFault Arguments :=
  match r.pending with
  | none => .ok r.given
  | some (s, values) => r.given.give s values

/-- Whether the pending setting takes another value. -/
def takesValue (r : Reading) : Bool :=
  match r.pending with
  | none => false
  | some (.files, _) => true
  | some (_, values) => values.isEmpty

/-- Raises a flag. -/
def flag (r : Reading) (f : Flag) : Except UsageFault Reading := do
  return { given := ← (← r.settle).raise f }

/-- Starts a setting, with a value if one is attached. -/
def setting (r : Reading) (s : Setting) : Option String → Except UsageFault Reading
  | some value => do return { given := ← (← r.settle).give s [value] }
  | none => do return { given := ← r.settle, pending := some (s, []) }

/-- Takes an argument that is no option. -/
def value (r : Reading) (text : String) : Except UsageFault Reading :=
  match r.pending with
  | some (s, values) =>
    if r.takesValue then .ok { r with pending := some (s, values ++ [text]) }
    else .error .unknownArgument
  | none => .error .unknownArgument

/-- Takes a long option, without its dashes. -/
def long (r : Reading) (text : List Char) : Except UsageFault Reading :=
  let (name, attached) :=
    match Text.cutFirst '=' text with
    | some (name, value) => (name, some (String.ofList value))
    | none => (text, none)
  match OptionName.ofLong? (String.ofList name), attached with
  | none, _ => .error .unknownArgument
  | some (.setting s), attached => r.setting s attached
  | some (.flag _), some _ => .error .tooManyValues
  | some (.flag f), none => r.flag f

/-- The value that is attached to a letter. -/
def attachedTo : List Char → Option String
  | [] => none
  | '=' :: value => some (String.ofList value)
  | value => some (String.ofList value)

/-- Takes letters that are run together; the first that takes a value takes all that follow. -/
def letters (r : Reading) : List Char → Except UsageFault Reading
  | [] => .ok r
  | c :: cs =>
    match OptionName.ofLetter? c with
    | none => .error .unknownArgument
    | some (.setting s) => r.setting s (attachedTo cs)
    | some (.flag f) => do (← r.flag f).letters cs

/-- Takes arguments to the end; after two dashes nothing is an option. -/
def arguments (r : Reading) : List String → Except UsageFault Arguments
  | [] => r.settle
  | text :: rest =>
    match text.toList with
    | ['-', '-'] => if rest.isEmpty then r.settle else .error .unknownArgument
    | '-' :: '-' :: long => do (← r.long long).arguments rest
    | '-' :: c :: cs => do (← r.letters (c :: cs)).arguments rest
    | _ => do (← r.value text).arguments rest

end Reading

/-- Reads the arguments of the command, without the program's name. -/
def parse (args : List String) : Except UsageFault Arguments := ({} : Reading).arguments args

end ApiTypings.CommandLine
