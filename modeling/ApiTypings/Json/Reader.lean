import ApiTypings.Json.Value
import ApiTypings.Text.Cut
import ApiTypings.Text.Digits

/-!
# Reading JSON documents

The grammar of RFC 8259: blanks are space, tab, line feed and carriage return; a number has no
leading zeros; a string holds no control characters. Readers take what is left of the text and
return the value with a strictly shorter rest. An escape `\u` names a unit of sixteen bits; two
units that form a surrogate pair name one character, and any other surrogate leaves the string
without a text.
-/

namespace ApiTypings.Json

/-- The characters that may stand between tokens. -/
def isSpace (c : Char) : Bool := c == ' ' || c == '\t' || c == '\n' || c == '\r'

/-- What is left after leading blanks. -/
def skip (cs : List Char) : List Char := cs.dropWhile isSpace

private theorem length_skip_le (cs : List Char) : (skip cs).length ≤ cs.length :=
  Text.length_dropWhile_le _ cs

/-- A part of a string: a character as it stands, or a unit of sixteen bits. -/
inductive Piece where
  | char (c : Char)
  | unit (value : Nat)
  deriving DecidableEq, Repr

/-- The characters that the pieces of a string spell, if they spell any. -/
def spell : List Piece → Option (List Char)
  | [] => some []
  | .char c :: ps => (spell ps).map (c :: ·)
  | .unit high :: ps =>
    if 0xD800 ≤ high ∧ high ≤ 0xDBFF then
      match ps with
      | .unit low :: rest =>
        if 0xDC00 ≤ low ∧ low ≤ 0xDFFF then
          (spell rest).map (Char.ofNat (0x10000 + (high - 0xD800) * 0x400 + (low - 0xDC00)) :: ·)
        else none
      | _ => none
    else if 0xDC00 ≤ high ∧ high ≤ 0xDFFF then none
    else (spell ps).map (Char.ofNat high :: ·)

/-- The character that a short escape names. -/
def escaped? : Char → Option Char
  | '"' => some '"'
  | '\\' => some '\\'
  | '/' => some '/'
  | 'b' => some '\x08'
  | 'f' => some '\x0c'
  | 'n' => some '\n'
  | 'r' => some '\r'
  | 't' => some '\t'
  | _ => none

/-- Reads the pieces of a string up to its closing quote. -/
def readPieces : List Char → Option (List Piece × List Char)
  | [] => none
  | '"' :: rest => some ([], rest)
  | '\\' :: 'u' :: a :: b :: c :: d :: rest => do
    let value ← Text.hexadecimal? [a, b, c, d]
    let (pieces, rest) ← readPieces rest
    return (.unit value :: pieces, rest)
  | '\\' :: e :: rest => do
    let c ← escaped? e
    let (pieces, rest) ← readPieces rest
    return (.char c :: pieces, rest)
  | c :: rest =>
    if c = '\\' ∨ c.toNat < 0x20 then none
    else do
      let (pieces, rest) ← readPieces rest
      return (.char c :: pieces, rest)

/-- Reading the pieces of a string leaves less text. -/
theorem length_of_readPieces {cs rest : List Char} {ps : List Piece}
    (h : readPieces cs = some (ps, rest)) : rest.length < cs.length := by
  fun_induction readPieces cs generalizing ps rest with
  | case1 => simp at h
  | case2 => simp_all
  | case3 a b c d cs ih =>
    simp only [Option.bind_eq_bind, Option.bind_eq_some_iff, Option.pure_def,
      Option.some.injEq, Prod.mk.injEq] at h
    obtain ⟨_, _, ⟨_, _⟩, hr, _, rfl⟩ := h
    have := ih hr
    simp only [List.length_cons]
    omega
  | case4 e cs _ ih =>
    simp only [Option.bind_eq_bind, Option.bind_eq_some_iff, Option.pure_def,
      Option.some.injEq, Prod.mk.injEq] at h
    obtain ⟨_, _, ⟨_, _⟩, hr, _, rfl⟩ := h
    have := ih hr
    simp only [List.length_cons]
    omega
  | case5 => simp at h
  | case6 c cs _ _ _ _ ih =>
    simp only [Option.bind_eq_bind, Option.bind_eq_some_iff, Option.pure_def,
      Option.some.injEq, Prod.mk.injEq] at h
    obtain ⟨⟨_, _⟩, hr, _, rfl⟩ := h
    have := ih hr
    simp only [List.length_cons]
    omega

/-- The text that pieces spell. -/
def textOf (pieces : List Piece) : Option String := (spell pieces).map String.ofList

/-- The digits at the start of a text, and what follows them. -/
def readDigits (cs : List Char) : List Char × List Char :=
  (cs.takeWhile Char.isDigit, cs.dropWhile Char.isDigit)

/-- Reads digits of which there must be at least one. -/
def readSomeDigits (cs : List Char) : Option (List Char × List Char) :=
  if (readDigits cs).1 = [] then none else some (readDigits cs)

/-- Reads the digits of a fraction after its point; without a point there are none. -/
def readFraction : List Char → Option (List Char × List Char)
  | '.' :: cs => readSomeDigits cs
  | cs => some ([], cs)

/-- Reads an exponent, if there is one. -/
def readExponent (cs : List Char) : Option (Option Int × List Char) :=
  let signed (cs : List Char) : Option (Option Int × List Char) :=
    match cs with
    | '-' :: cs => (readSomeDigits cs).map fun (ds, rest) => (some (-(Text.decimal ds : Int)), rest)
    | '+' :: cs => (readSomeDigits cs).map fun (ds, rest) => (some (Text.decimal ds : Int), rest)
    | cs => (readSomeDigits cs).map fun (ds, rest) => (some (Text.decimal ds : Int), rest)
  match cs with
  | 'e' :: cs => signed cs
  | 'E' :: cs => signed cs
  | cs => some (none, cs)

/-- Reads a number after its sign. -/
def readMagnitude (negative : Bool) (cs : List Char) : Option (Number × List Char) := do
  let (digits, rest) ← readSomeDigits cs
  if digits.length > 1 && digits.head? == some '0' then none
  let (fraction, rest) ← readFraction rest
  let (exponent, rest) ← readExponent rest
  return (⟨negative, digits, fraction, exponent⟩, rest)

/-- Reads a number. -/
def readNumber : List Char → Option (Number × List Char)
  | '-' :: cs => readMagnitude true cs
  | cs => readMagnitude false cs

/-- `cs` after the word `word`, if it starts with that. -/
def readWord (word cs : List Char) : Option (List Char) :=
  if word.isPrefixOf cs then some (cs.drop word.length) else none

/-- Reads a value that is neither an array nor an object. -/
def readScalar (cs : List Char) : Option (Value × List Char) :=
  match cs with
  | '"' :: rest => (readPieces rest).map fun (ps, rest) => (.string (textOf ps), rest)
  | 'n' :: _ => (readWord "null".toList cs).map fun rest => (.null, rest)
  | 't' :: _ => (readWord "true".toList cs).map fun rest => (.bool true, rest)
  | 'f' :: _ => (readWord "false".toList cs).map fun rest => (.bool false, rest)
  | _ => (readNumber cs).map fun (n, rest) => (.number n, rest)

mutual

/-- Reads a value. -/
def readValue (cs : List Char) : Option (Value × Text.Remainder cs) :=
  have := length_skip_le cs
  match h : skip cs with
  | '[' :: inside =>
    have : inside.length < cs.length := by
      simp only [h, List.length_cons] at this
      omega
    match he : skip inside with
    | ']' :: rest => some (.array [], ⟨rest, by
        have := length_skip_le inside
        simp only [he, List.length_cons] at this
        omega⟩)
    | _ => do
      let (items, rest) ← readItems inside
      return (.array items, ⟨rest.1, Nat.lt_trans rest.2 this⟩)
  | '\x7b' :: inside =>
    have : inside.length < cs.length := by
      simp only [h, List.length_cons] at this
      omega
    match he : skip inside with
    | '\x7d' :: rest => some (.object [], ⟨rest, by
        have := length_skip_le inside
        simp only [he, List.length_cons] at this
        omega⟩)
    | _ => do
      let (fields, rest) ← readFields inside
      return (.object fields, ⟨rest.1, Nat.lt_trans rest.2 this⟩)
  | other => do
    let (v, rest) ← readScalar other
    let rest ← Text.remainder? cs rest
    return (v, rest)
termination_by (cs.length, 0)

/-- Reads the items of an array up to its closing bracket. -/
def readItems (cs : List Char) : Option (List Value × Text.Remainder cs) :=
  match readValue cs with
  | none => none
  | some (v, rest) =>
    have := rest.2
    have := length_skip_le rest.1
    match h : skip rest.1 with
    | ',' :: more =>
      have : more.length < cs.length := by
        simp only [h, List.length_cons] at this
        omega
      match readItems more with
      | none => none
      | some (vs, after) => some (v :: vs, ⟨after.1, Nat.lt_trans after.2 this⟩)
    | ']' :: after => some ([v], ⟨after, by
        simp only [h, List.length_cons] at this
        omega⟩)
    | _ => none
termination_by (cs.length, 1)

/-- Reads the fields of an object up to its closing brace. -/
def readFields (cs : List Char) : Option (List (Option String × Value) × Text.Remainder cs) :=
  have := length_skip_le cs
  match hq : skip cs with
  | '"' :: quotedName =>
    match hp : readPieces quotedName with
    | none => none
    | some (pieces, afterName) =>
      have := length_of_readPieces hp
      have := length_skip_le afterName
      match hc : skip afterName with
      | ':' :: value =>
        have shorter : value.length < cs.length := by
          simp only [hq, hc, List.length_cons] at *
          omega
        match readValue value with
        | none => none
        | some (v, rest) =>
          have := rest.2
          have := length_skip_le rest.1
          match h : skip rest.1 with
          | ',' :: more =>
            have : more.length < cs.length := by
              simp only [h, List.length_cons] at this
              omega
            match readFields more with
            | none => none
            | some (fields, after) =>
              some ((textOf pieces, v) :: fields, ⟨after.1, Nat.lt_trans after.2 this⟩)
          | '\x7d' :: after => some ([(textOf pieces, v)], ⟨after, by
              simp only [h, List.length_cons] at this
              omega⟩)
          | _ => none
      | _ => none
  | _ => none
termination_by (cs.length, 1)

end

/-- Reads a whole document, which is one value. -/
def read (text : String) : Option Value :=
  match readValue text.toList with
  | none => none
  | some (v, rest) => if skip rest.1 = [] then some v else none

end ApiTypings.Json
