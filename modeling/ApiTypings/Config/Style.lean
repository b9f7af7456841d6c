import ApiTypings.Text.Cut

/-!
# Styles of the generated files

Two choices shape the text of every file: how files reach each other's declarations, and how
lines end. Both are chosen by name, in any case of letters.
-/

namespace ApiTypings

/-- How the generated files reach each other's declarations. -/
inductive ModuleStyle where
  /-- Exported declarations and relative imports. -/
  | modules
  /-- Global declarations tied together by reference directives. -/
  | globals
  deriving DecidableEq, Repr, Inhabited

/-- How the lines of the generated files end. -/
inductive Newline where
  | lf
  | crlf
  deriving DecidableEq, Repr, Inhabited

/-- The choices that shape the generated files. -/
structure Style where
  moduleStyle : ModuleStyle := .modules
  /-- Whether a nullable type is written as an alternative with `null`. -/
  strictNull : Bool := false
  newline : Newline := .lf
  deriving DecidableEq, Repr, Inhabited

/-- A name that no style has, in small letters. -/
inductive StyleFault where
  | moduleStyle (name : String)
  | newline (name : String)
  deriving DecidableEq, Repr

namespace ModuleStyle

/-- The name of a style. -/
def name : ModuleStyle → String
  | modules => "module"
  | globals => "global"

/-- The style of a name in small letters; the global style has two names. -/
def ofName? : String → Option ModuleStyle
  | "module" => some modules
  | "global" => some globals
  | "typescript" => some globals
  | _ => none

/-- The style that a text asks for, whatever the case of its letters. -/
def parse (text : String) : Except StyleFault ModuleStyle :=
  match ofName? (Text.lower text) with
  | some style => .ok style
  | none => .error (.moduleStyle (Text.lower text))

end ModuleStyle

namespace Newline

/-- The characters that end a line. -/
def text : Newline → String
  | lf => "\n"
  | crlf => "\r\n"

/-- The line end of a name in small letters. -/
def ofName? : String → Option Newline
  | "lf" => some lf
  | "crlf" => some crlf
  | _ => none

/-- The line end that a text asks for, whatever the case of its letters. -/
def parse (text : String) : Except StyleFault Newline :=
  match ofName? (Text.lower text) with
  | some style => .ok style
  | none => .error (.newline (Text.lower text))

end Newline

/-- The wording of a style fault. -/
def StyleFault.message : StyleFault → String
  | moduleStyle name => "unknown module type `" ++ name ++ "` (expected `module` or `typescript`)"
  | newline name => "unknown newline style `" ++ name ++ "` (expected `lf` or `crlf`)"

end ApiTypings
