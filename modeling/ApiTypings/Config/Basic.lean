import ApiTypings.Config.Style
import ApiTypings.Disk.Path
import ApiTypings.Toml.Table

/-!
# Configurations

A configuration names the style of the generated files, the directory they go to and the
catalogs to read. It is read from a document whose keys all have defaults; any other key, a key
given twice and a value of the wrong kind are refused. Paths in a file are taken from the
directory that holds the file.
-/

namespace ApiTypings

/-- Everything a run needs besides the catalogs themselves. -/
structure Configuration where
  style : Style := {}
  outputDir : String := "generated"
  /-- The catalogs to read. -/
  inputs : List String := []
  deriving DecidableEq, Repr, Inhabited

/-- Why there is no configuration. -/
inductive ConfigFault where
  | style (fault : StyleFault)
  /-- The document is malformed or has a setting that is none. -/
  | document
  /-- The document of that path is malformed or has a setting that is none. -/
  | file (path : String)
  | noInputs
  deriving DecidableEq, Repr

/-- What a fault says after the words that all faults start with. -/
def ConfigFault.detail : ConfigFault → String
  | style fault => fault.message
  | document => "TOML parse error"
  | file path => path ++ ": invalid configuration: TOML parse error"
  | noInputs => "no input catalogs; pass --files or set `inputs` in the configuration file"

/-- The wording of a fault. -/
def ConfigFault.message (fault : ConfigFault) : String := "invalid configuration: " ++ fault.detail

namespace Configuration

open Toml (Item Value)

/-- The text of an item. -/
def text? : Item → Option String
  | .value (.text s) => some s
  | _ => none

/-- The truth value of an item. -/
def bool? : Item → Option Bool
  | .value (.bool b) => some b
  | _ => none

/-- The texts of an array. -/
def texts? : Item → Option (List String)
  | .value (.array items) => items.mapM fun v => text? (.value v)
  | _ => none

/-- Whether a value is an array or a table without contents. -/
def isEmptyValue : Value → Bool
  | .array [] => true
  | .table [] => true
  | _ => false

/-- Whether an item is an array or a table without contents. -/
def isEmptyItem : Item → Bool
  | .value v => isEmptyValue v
  | .table _ entries => entries.isEmpty

/-- The name that an item chooses: a text, or the one key of a table, if nothing is under it. -/
def choice? : Item → Option String
  | .value (.text s) => some s
  | .value (.table [([name], v)]) => if isEmptyValue v then some name else none
  | .table _ [(name, item)] => if isEmptyItem item then some name else none
  | _ => none

/-- The configuration with a setting changed, unless the document has a key that is no setting or
a value of the wrong kind. -/
def set (c : Configuration) (setting : String × Item) : Option Configuration :=
  let (key, item) := setting
  match key with
  | "module-type" => do
    let style ← ModuleStyle.ofName? (← choice? item)
    return { c with style.moduleStyle := style }
  | "strict-null-check" => (bool? item).map fun b => { c with style.strictNull := b }
  | "newline" => do
    let newline ← Newline.ofName? (← choice? item)
    return { c with style.newline := newline }
  | "output-dir" => (text? item).map fun path => { c with outputDir := path }
  | "inputs" => (texts? item).map fun paths => { c with inputs := paths }
  | _ => none

/-- Reads the configuration of a document. -/
def parse (text : String) : Except ConfigFault Configuration :=
  match (Toml.parse text).bind (·.foldlM set {}) with
  | some c => .ok c
  | none => .error .document

/-- The configuration with its paths taken from a directory. -/
def relativeTo (c : Configuration) (directory : String) : Configuration :=
  { c with
    outputDir := Path.join directory c.outputDir
    inputs := c.inputs.map (Path.join directory) }

/-- Reads the configuration of a document that is a file. -/
def parseFile (path text : String) : Except ConfigFault Configuration :=
  match parse text with
  | .error _ => .error (.file path)
  | .ok c =>
    .ok (match Path.parent? path with
      | some directory => c.relativeTo directory
      | none => c)

end Configuration

end ApiTypings
