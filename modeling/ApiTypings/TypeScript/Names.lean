import ApiTypings.Text.Cut

/-!
# Names and quoted text in TypeScript

A plain name is made of ASCII letters, digits, `_` and `$` and does not start with a digit. A
property key that is no plain name is quoted; a declared name is turned into a plain name that
is no reserved word. Text inside quotes and text inside a template literal each have their own
escapes.
-/

namespace ApiTypings.TypeScript

/-- Words that may not be declared. -/
def reservedWords : List String := [
  "break", "case", "catch", "class", "const", "continue", "debugger", "default", "delete", "do",
  "else", "enum", "export", "extends", "false", "finally", "for", "function", "if", "import",
  "in", "instanceof", "new", "null", "return", "super", "switch", "this", "throw", "true", "try",
  "typeof", "var", "void", "while", "with", "yield", "let", "static", "implements", "interface",
  "package", "private", "protected", "public", "await", "async"]

/-- Whether `name` may not be declared. -/
def isReserved (name : String) : Bool := reservedWords.contains name

/-- The characters of a plain name. -/
def isPlainChar (c : Char) : Bool := c.isAlphanum || c == '_' || c == '$'

/-- A plain character that may stand first. -/
def isPlainStart (c : Char) : Bool := c.isAlpha || c == '_' || c == '$'

/-- Whether a text is a plain name. -/
def isPlainName : List Char → Bool
  | [] => false
  | c :: cs => isPlainStart c && (c :: cs).all isPlainChar

/-- Whether a property key must be quoted. -/
def needsQuotes (name : String) : Bool := !isPlainName name.toList

/-- Doubles backslashes and puts one before each double quote. -/
def escapeQuotedChars : List Char → List Char
  | [] => []
  | '\\' :: cs => '\\' :: '\\' :: escapeQuotedChars cs
  | '"' :: cs => '\\' :: '"' :: escapeQuotedChars cs
  | c :: cs => c :: escapeQuotedChars cs

/-- The text that stands between double quotes for `s`. -/
def escapeQuoted (s : String) : String := String.ofList (escapeQuotedChars s.toList)

/-- Doubles backslashes and puts one before each grave accent and each `$` that a brace follows. -/
def escapeTemplateChars : List Char → List Char
  | [] => []
  | '\\' :: cs => '\\' :: '\\' :: escapeTemplateChars cs
  | '\x60' :: cs => '\\' :: '\x60' :: escapeTemplateChars cs
  | '$' :: '\x7b' :: cs => '\\' :: '$' :: '\x7b' :: escapeTemplateChars cs
  | c :: cs => c :: escapeTemplateChars cs

/-- The text that stands in a template literal for `s`. -/
def escapeTemplate (s : String) : String := String.ofList (escapeTemplateChars s.toList)

/-- `s` as a string literal. -/
def quoted (s : String) : String := "\"" ++ escapeQuoted s ++ "\""

/-- A property key: the name itself if it is plain, else a string literal. -/
def key (name : String) : String := if needsQuotes name then quoted name else name

/-- Writes `_` for a character that no plain name holds. -/
def plainChar (c : Char) : Char := if isPlainChar c then c else '_'

/-- Puts `_` before a name that starts with a digit. -/
def guardDigit : List Char → List Char
  | [] => []
  | c :: cs => if c.isDigit then '_' :: c :: cs else c :: cs

/-- Puts `_` before a reserved word. -/
def guardReserved (cs : List Char) : List Char :=
  if isReserved (String.ofList cs) then '_' :: cs else cs

/-- The plain name, no reserved word, under which `name` is declared. -/
def identifier (name : String) : String :=
  if name = "" then "_empty"
  else String.ofList (guardReserved (guardDigit (name.toList.map plainChar)))

end ApiTypings.TypeScript
