import ApiTypings.Text.Cut
import ApiTypings.Text.Digits

/-!
# Reading TOML

The part of TOML 1.0 that a configuration can use: strings of all four kinds, truth values,
arrays, inline tables, dotted and quoted keys, table headers and comments. Numbers, dates and
arrays of tables have no place in a configuration and are refused. A document is read into its
statements, in order.
-/

namespace ApiTypings.Toml

/-- A value. The entries of an inline table keep their dotted keys. -/
inductive Value where
  | text (value : String)
  | bool (value : Bool)
  | array (items : List Value)
  | table (entries : List (List String × Value))
  deriving Repr, Inhabited

/-- A statement of a document. -/
inductive Statement where
  /-- The table that the following assignments belong to. -/
  | header (key : List String)
  | assign (key : List String) (value : Value)
  deriving Repr, Inhabited

/-- The blanks within a line. -/
def isSpace (c : Char) : Bool := c == ' ' || c == '\t'

/-- What is left after blanks. -/
def skip (cs : List Char) : List Char := cs.dropWhile isSpace

/-- Whether a character may stand in a comment or a string: a tab, or no control character. -/
def isPrintable (c : Char) : Bool := c == '\t' || (0x20 ≤ c.toNat && c.toNat ≠ 0x7F)

/-- What is left after a comment, if there is one: it ends where no character of it follows. -/
def skipComment : List Char → List Char
  | '#' :: cs => cs.dropWhile isPrintable
  | cs => cs

/-- What is left after a line end, if there is one. -/
def lineEnd? : List Char → Option (List Char)
  | '\n' :: cs => some cs
  | '\r' :: '\n' :: cs => some cs
  | _ => none

/-- What is left after blanks and line ends. -/
def skipBreaks : List Char → List Char
  | ' ' :: cs => skipBreaks cs
  | '\t' :: cs => skipBreaks cs
  | '\n' :: cs => skipBreaks cs
  | '\r' :: '\n' :: cs => skipBreaks cs
  | cs => cs

/-- What is left after blanks, line ends and comments. -/
def skipTrivia (cs : List Char) : List Char :=
  let rest := skipComment (skipBreaks cs)
  if rest.length < cs.length then skipTrivia rest else rest
termination_by cs.length

/-- The character that a short escape names. -/
def escaped? : Char → Option Char
  | 'b' => some '\x08'
  | 't' => some '\t'
  | 'n' => some '\n'
  | 'f' => some '\x0c'
  | 'r' => some '\r'
  | '"' => some '"'
  | '\\' => some '\\'
  | _ => none

/-- The character whose number the hexadecimal digits write. -/
def scalar? (digits : List Char) : Option Char := do
  let n ← Text.hexadecimal? digits
  if n.isValidChar then some (Char.ofNat n) else none

/-- Reads an escape after its backslash. -/
def readEscape : List Char → Option (Char × List Char)
  | 'u' :: a :: b :: c :: d :: rest => (scalar? [a, b, c, d]).map (·, rest)
  | 'U' :: a :: b :: c :: d :: e :: f :: g :: h :: rest =>
    (scalar? [a, b, c, d, e, f, g, h]).map (·, rest)
  | e :: rest => (escaped? e).map (·, rest)
  | [] => none

/-- Puts a character in front of what was read after it. -/
def prepend (c : Char) (read : List Char × List Char) : List Char × List Char :=
  (c :: read.1, read.2)

/-- Reads a string between double quotes, after the first of them. -/
def readBasic (cs : List Char) : Option (List Char × List Char) :=
  match cs with
  | [] => none
  | '"' :: rest => some ([], rest)
  | '\\' :: code => do
    let (c, rest) ← readEscape code
    let ⟨rest, _⟩ ← Text.remainder? ('\\' :: code) rest
    return prepend c (← readBasic rest)
  | c :: rest => if isPrintable c then (readBasic rest).map (prepend c) else none
termination_by cs.length
decreasing_by all_goals simp only [List.length_cons] at *; omega

/-- Whether a backslash before `cs` joins two lines: only blanks stand before the line end. -/
def joinsLines (cs : List Char) : Bool := (lineEnd? (skip cs)).isSome

/-- Reads a string between three double quotes, after the first line end. One or two quotes may
stand before the closing three. -/
def readLongBasic (cs : List Char) : Option (List Char × List Char) :=
  match cs with
  | [] => none
  | '"' :: '"' :: '"' :: '"' :: '"' :: rest => some (['"', '"'], rest)
  | '"' :: '"' :: '"' :: '"' :: rest => some (['"'], rest)
  | '"' :: '"' :: '"' :: rest => some ([], rest)
  | '\\' :: code =>
    if joinsLines code then do
      let ⟨rest, _⟩ ← Text.remainder? ('\\' :: code) (skipBreaks code)
      readLongBasic rest
    else do
      let (c, rest) ← readEscape code
      let ⟨rest, _⟩ ← Text.remainder? ('\\' :: code) rest
      return prepend c (← readLongBasic rest)
  | '\r' :: '\n' :: rest => (readLongBasic rest).map (prepend '\n')
  | c :: rest => if isPrintable c || c == '\n' then (readLongBasic rest).map (prepend c) else none
termination_by cs.length
decreasing_by all_goals simp only [List.length_cons] at *; omega

/-- Reads a string between single quotes, after the first of them. -/
def readLiteral : List Char → Option (List Char × List Char)
  | [] => none
  | '\'' :: rest => some ([], rest)
  | c :: rest => if isPrintable c then (readLiteral rest).map (prepend c) else none

/-- Reads a string between three single quotes, after the first line end. -/
def readLongLiteral : List Char → Option (List Char × List Char)
  | [] => none
  | '\'' :: '\'' :: '\'' :: '\'' :: '\'' :: rest => some (['\'', '\''], rest)
  | '\'' :: '\'' :: '\'' :: '\'' :: rest => some (['\''], rest)
  | '\'' :: '\'' :: '\'' :: rest => some ([], rest)
  | '\r' :: '\n' :: rest => (readLongLiteral rest).map (prepend '\n')
  | c :: rest => if isPrintable c || c == '\n' then (readLongLiteral rest).map (prepend c) else none

/-- What is left after a line end, or all of it. -/
def dropLineEnd (cs : List Char) : List Char := (lineEnd? cs).getD cs

/-- Reads a string of any kind. -/
def readString : List Char → Option (String × List Char)
  | '"' :: '"' :: '"' :: cs => (readLongBasic (dropLineEnd cs)).map finish
  | '"' :: cs => (readBasic cs).map finish
  | '\'' :: '\'' :: '\'' :: cs => (readLongLiteral (dropLineEnd cs)).map finish
  | '\'' :: cs => (readLiteral cs).map finish
  | _ => none
where
  finish (read : List Char × List Char) : String × List Char := (String.ofList read.1, read.2)

/-- The characters of a key without quotes. -/
def isKeyChar (c : Char) : Bool := c.isAlphanum || c == '_' || c == '-'

/-- Reads a part of a key. -/
def readKeyPart (cs : List Char) : Option (String × List Char) :=
  match cs with
  | '"' :: rest => (readBasic rest).map readString.finish
  | '\'' :: rest => (readLiteral rest).map readString.finish
  | _ =>
    let name := cs.takeWhile isKeyChar
    if name.isEmpty then none else some (String.ofList name, cs.dropWhile isKeyChar)

/-- Reads a key: its parts with dots between them, and the blanks after it. -/
def readKey (cs : List Char) : Option (List String × List Char) := do
  let (part, rest) ← readKeyPart (skip cs)
  match skip rest with
  | '.' :: more => do
    let ⟨more, _⟩ ← Text.remainder? cs more
    let (parts, rest) ← readKey more
    return (part :: parts, rest)
  | rest => return ([part], rest)
termination_by cs.length

mutual

/-- Reads a value. -/
def readValue (cs : List Char) : Option (Value × Text.Remainder cs) :=
  match cs with
  | '[' :: rest =>
    (readItems rest).map fun (items, after) =>
      (.array items, ⟨after.1, Nat.lt_trans after.2 (Nat.lt_succ_self _)⟩)
  | '\x7b' :: rest =>
    match skip rest with
    | '\x7d' :: after => do
      let after ← Text.remainder? _ after
      return (.table [], after)
    | _ =>
      (readEntries rest).map fun (entries, after) =>
        (.table entries, ⟨after.1, Nat.lt_trans after.2 (Nat.lt_succ_self _)⟩)
  | 't' :: 'r' :: 'u' :: 'e' :: rest => do
    let rest ← Text.remainder? _ rest
    return (.bool true, rest)
  | 'f' :: 'a' :: 'l' :: 's' :: 'e' :: rest => do
    let rest ← Text.remainder? _ rest
    return (.bool false, rest)
  | other => do
    let (text, rest) ← readString other
    let rest ← Text.remainder? other rest
    return (.text text, rest)
termination_by (cs.length, 0)

/-- Reads the items of an array up to its closing bracket; the last may have a comma after it. -/
def readItems (cs : List Char) : Option (List Value × Text.Remainder cs) :=
  match skipTrivia cs with
  | ']' :: after => do
    let after ← Text.remainder? cs after
    return ([], after)
  | start =>
    if _h : start.length ≤ cs.length then
      match readValue start with
      | none => none
      | some (v, rest) =>
        match skipTrivia rest.1 with
        | ']' :: after => do
          let after ← Text.remainder? cs after
          return ([v], after)
        | ',' :: more =>
          if h' : more.length < cs.length then do
            let (vs, after) ← readItems more
            return (v :: vs, ⟨after.1, Nat.lt_trans after.2 h'⟩)
          else none
        | _ => none
    else none
termination_by (cs.length, 1)
decreasing_by
  · rcases Nat.lt_or_eq_of_le _h with h | h
    · exact Prod.Lex.left _ _ h
    · exact h ▸ Prod.Lex.right _ (by omega)
  · exact Prod.Lex.left _ _ h'

/-- Reads the entries of an inline table up to its closing brace. -/
def readEntries (cs : List Char) : Option (List (List String × Value) × Text.Remainder cs) :=
  match readKey cs with
  | some (key, '=' :: value) =>
    if _h : (skip value).length < cs.length then
      match readValue (skip value) with
      | none => none
      | some (v, rest) =>
        match skip rest.1 with
        | '\x7d' :: after => do
          let after ← Text.remainder? cs after
          return ([(key, v)], after)
        | ',' :: more =>
          if h' : more.length < cs.length then do
            let (entries, after) ← readEntries more
            return ((key, v) :: entries, ⟨after.1, Nat.lt_trans after.2 h'⟩)
          else none
        | _ => none
    else none
  | _ => none
termination_by (cs.length, 1)

end

/-- Reads a statement and what may follow it on its line. -/
def readStatement (cs : List Char) : Option (Statement × List Char) := do
  let (statement, rest) ←
    match cs with
    | '[' :: inside =>
      match readKey inside with
      | some (key, ']' :: rest) => some (Statement.header key, rest)
      | _ => none
    | _ =>
      match readKey cs with
      | some (key, '=' :: value) =>
        (readValue (skip value)).map fun (v, rest) => (Statement.assign key v, rest.1)
      | _ => none
  let rest := skipComment (skip rest)
  if rest.isEmpty || (lineEnd? rest).isSome then return (statement, rest) else none

/-- Reads the statements of a text that starts at the start of a line. -/
def readStatements (cs : List Char) : Option (List Statement) :=
  let start := skipTrivia cs
  if start.isEmpty then some []
  else do
    let (statement, rest) ← readStatement start
    let ⟨rest, _⟩ ← Text.remainder? cs rest
    return statement :: (← readStatements rest)
termination_by cs.length

/-- Reads a whole document, which may start with a byte order mark. -/
def read (text : String) : Option (List Statement) :=
  match text.toList with
  | '\ufeff' :: cs => readStatements cs
  | cs => readStatements cs

end ApiTypings.Toml
