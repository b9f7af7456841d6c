import ApiTypings.Text.Digits
import ApiTypings.TypeScript.Expression
import ApiTypings.TypeScript.Grammar

/-!
# The grammar of literals

How the language reads a string literal between double quotes and a template literal, stated
without the writer. Each relation says what stands at the start of a text and what follows it.

A backslash starts an escape. In a string literal, a line feed or a carriage return may stand only
in an escape. In a template literal a line may end anywhere, and the end is read as a line feed;
`$` is a character like any other, unless a brace follows it: then an expression stands in the
braces. Of the expressions, the grammar has identifiers and calls, with blanks between their parts.
Escapes for half of a surrogate pair, which is no character, are left out.
-/

namespace ApiTypings.TypeScript.Literal

/-! ## Escapes -/

/-- The characters that end a line. -/
def lineEnds : List Char := ['\n', '\r', '\u2028', '\u2029']

/-- What a character stands for behind a backslash, unless digits belong to it. -/
def escaped : Char → Char
  | 'b' => '\x08'
  | 't' => '\t'
  | 'n' => '\n'
  | 'v' => '\x0b'
  | 'f' => '\x0c'
  | 'r' => '\r'
  | c => c

/-- The character whose number is written in these hexadecimal digits. -/
def numbered? (digits : List Char) : Option (List Char) :=
  match Text.hexadecimal? digits with
  | some n => if digits ≠ [] ∧ n.isValidChar then some [Char.ofNat n] else none
  | none => none

/-- What the characters behind a backslash stand for, and what follows them. The end of a line
stands for nothing. -/
def escape? : List Char → Option (List Char × List Char)
  | [] => none
  | '\r' :: '\n' :: cs => some ([], cs)
  | 'x' :: d :: e :: cs => (numbered? [d, e]).map (·, cs)
  | 'u' :: '\x7b' :: cs =>
    (Text.cutFirst '\x7d' cs).bind fun (digits, rest) => (numbered? digits).map (·, rest)
  | 'u' :: d :: e :: f :: g :: cs => (numbered? [d, e, f, g]).map (·, cs)
  | '0' :: cs => if cs.head?.any Char.isDigit then none else some (['\x00'], cs)
  | c :: cs =>
    if c ∈ lineEnds then some ([], cs)
    else if c.isDigit || c == 'x' || c == 'u' then none
    else some ([escaped c], cs)

/-! ## String literals -/

/-- The characters up to the quote that closes a string literal. -/
inductive StringBody : List Char → List Char → List Char → Prop where
  | close (rest) : StringBody ('"' :: rest) [] rest
  | escape {cs ds v w rest} : escape? cs = some (v, ds) → StringBody ds w rest →
      StringBody ('\\' :: cs) (v ++ w) rest
  | char {c cs w rest} : c ≠ '"' → c ≠ '\\' → c ≠ '\n' → c ≠ '\r' → StringBody cs w rest →
      StringBody (c :: cs) (c :: w) rest

/-- A string literal, its value, and what follows it. -/
inductive StringLiteral : List Char → String → List Char → Prop where
  | quoted {cs v rest} : StringBody cs v rest → StringLiteral ('"' :: cs) (String.ofList v) rest

/-- The key of a property or of a field, the name it gives, and what follows it. -/
inductive Key : List Char → String → List Char → Prop where
  | name {name rest} : isName name = true → (∀ c ∈ rest.head?, isNameChar c = false) →
      Key (name ++ rest) (String.ofList name) rest
  | string {cs v rest} : StringLiteral cs v rest → Key cs v rest

/-! ## Expressions of identifiers and calls -/

/-- The words that the language keeps for itself: `async` may be an identifier. -/
def keywords : List String := reservedWords.erase "async"

/-- The first characters that are not blank. -/
abbrev next (cs : List Char) : List Char := Text.dropBlanks cs

mutual

/-- An expression and what follows it. -/
inductive Expression : List Char → Expr → List Char → Prop where
  | of {cs name ds e rest} : next cs = name ++ ds → isName name = true →
      (∀ c ∈ ds.head?, isNameChar c = false) → String.ofList name ∉ keywords →
      Calls (.ident (String.ofList name)) ds e rest → Expression cs e rest

/-- What the calls behind an expression make of it, and what follows them. -/
inductive Calls : Expr → List Char → Expr → List Char → Prop where
  | none {e cs} : (next cs).head? ≠ some '(' → Calls e cs e cs
  | call {f cs ds args ds' e rest} : next cs = '(' :: ds → Arguments ds args ds' →
      Calls (.call f [] args) ds' e rest → Calls f cs e rest

/-- The arguments of a call and what follows the parenthesis that ends them. -/
inductive Arguments : List Char → List Expr → List Char → Prop where
  | none {cs rest} : next cs = ')' :: rest → Arguments cs [] rest
  | last {cs e ds rest} : Expression cs e ds → next ds = ')' :: rest → Arguments cs [e] rest
  | more {cs e ds ds' es rest} : Expression cs e ds → next ds = ',' :: ds' →
      Arguments ds' es rest → Arguments cs (e :: es) rest

end

/-! ## Template literals -/

/-- The characters of a template up to what ends a stretch of text: an accent, or `$` and a
brace. -/
inductive Stretch : List Char → List Char → List Char → Prop where
  | accent (rest) : Stretch ('\x60' :: rest) [] ('\x60' :: rest)
  | brace (rest) : Stretch ('$' :: '\x7b' :: rest) [] ('$' :: '\x7b' :: rest)
  | dollar {cs w rest} : cs.head? ≠ some '\x7b' → Stretch cs w rest →
      Stretch ('$' :: cs) ('$' :: w) rest
  | escape {cs ds v w rest} : escape? cs = some (v, ds) → Stretch ds w rest →
      Stretch ('\\' :: cs) (v ++ w) rest
  | lineEnd {cs w rest} : Stretch cs w rest → Stretch ('\r' :: '\n' :: cs) ('\n' :: w) rest
  | carriageReturn {cs w rest} : cs.head? ≠ some '\n' → Stretch cs w rest →
      Stretch ('\r' :: cs) ('\n' :: w) rest
  | char {c cs w rest} : c ≠ '\x60' → c ≠ '$' → c ≠ '\\' → c ≠ '\r' → Stretch cs w rest →
      Stretch (c :: cs) (c :: w) rest

/-- A template behind the accent that opens it: the texts around its values, the values, and what
follows the accent that closes it. -/
inductive TemplateBody : List Char → List String → List Expr → List Char → Prop where
  | last {cs v rest} : Stretch cs v ('\x60' :: rest) → TemplateBody cs [String.ofList v] [] rest
  | more {cs v ds e ds' cs' texts values rest} : Stretch cs v ('$' :: '\x7b' :: ds) →
      Expression ds e ds' → next ds' = '\x7d' :: cs' → TemplateBody cs' texts values rest →
      TemplateBody cs (String.ofList v :: texts) (e :: values) rest

/-- A template literal, the texts around its values, the values, and what follows it. -/
inductive TemplateLiteral : List Char → List String → List Expr → List Char → Prop where
  | accents {cs texts values rest} : TemplateBody cs texts values rest →
      TemplateLiteral ('\x60' :: cs) texts values rest

end ApiTypings.TypeScript.Literal
