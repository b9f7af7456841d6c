import ApiTypings.Toml.Reader

/-!
# Tables of a TOML document

The statements of a document define a tree of tables. A key is given a value once; a table has
one header at most; a table that dotted keys made takes more of them but no header, and a table
with a header takes no dotted keys from outside.
-/

namespace ApiTypings.Toml

/-- What made a table. -/
inductive Origin where
  /-- The header of a table inside it. -/
  | implied
  | header
  | dotted
  deriving DecidableEq, Repr

/-- What a key stands for: a value, or a table of further keys. -/
inductive Item where
  | value (value : Value)
  | table (origin : Origin) (entries : List (String × Item))
  deriving Repr, Inhabited

/-- The keys of a table, in order. -/
abbrev Entries := List (String × Item)

/-- Gives a name its item, in its old place if it has one. -/
def setItem (name : String) (item : Item) : Entries → Entries
  | [] => [(name, item)]
  | (n, i) :: es => if n = name then (n, item) :: es else (n, i) :: setItem name item es

/-- Gives a dotted key its value, unless it has one. -/
def assign (v : Value) : List String → Entries → Option Entries
  | [], _ => none
  | [name], es => if (es.lookup name).isSome then none else some (setItem name (.value v) es)
  | name :: rest, es =>
    match es.lookup name with
    | none => (assign v rest []).map fun inner => setItem name (.table .dotted inner) es
    | some (.table .dotted inner) =>
      (assign v rest inner).map fun inner => setItem name (.table .dotted inner) es
    | some _ => none

/-- Opens the table of a header. -/
def openTable : List String → Entries → Option Entries
  | [], _ => none
  | [name], es =>
    match es.lookup name with
    | none => some (setItem name (.table .header []) es)
    | some (.table .implied inner) => some (setItem name (.table .header inner) es)
    | some _ => none
  | name :: rest, es =>
    match es.lookup name with
    | none => (openTable rest []).map fun inner => setItem name (.table .implied inner) es
    | some (.table origin inner) =>
      (openTable rest inner).map fun inner => setItem name (.table origin inner) es
    | some (.value _) => none

/-- Gives a dotted key its value in the table of a header. -/
def assignIn (key : List String) (v : Value) : List String → Entries → Option Entries
  | [], es => assign v key es
  | name :: rest, es =>
    match es.lookup name with
    | some (.table origin inner) =>
      (assignIn key v rest inner).map fun inner => setItem name (.table origin inner) es
    | _ => none

/-- The tree that statements define, the first of them in the table of `current`. -/
def define (current : List String) (es : Entries) : List Statement → Option Entries
  | [] => some es
  | .header key :: rest => (openTable key es).bind fun es => define key es rest
  | .assign key v :: rest => (assignIn key v current es).bind fun es => define current es rest

/-- Reads a document into the entries of its root table. -/
def parse (text : String) : Option Entries := (read text).bind (define [] [])

end ApiTypings.Toml
