import ApiTypings.Text.Cut
import ApiTypings.Config.Style

/-!
# Layout of lines

Lines are trimmed and indented by the depth of the braces open before them. A line that starts
with closing braces stands at the depth those braces return to; braces that balance within one
line change nothing; the depth never falls below zero. A blank line stays empty and keeps the
depth.
-/

namespace ApiTypings.Layout

/-- Four spaces for each level. -/
def indentation (level : Nat) : List Char := List.replicate (4 * level) ' '

/-- The number of closing braces that a line starts with. -/
def leadingCloses (line : List Char) : Nat := (line.takeWhile (· == '\x7d')).length

/-- The depth after a line that was reached at `depth`. -/
def depthAfter (depth : Nat) (line : List Char) : Nat :=
  depth + line.count '\x7b' - line.count '\x7d'

/-- A trimmed line at the level where it stands when `depth` braces are open before it. -/
def place (depth : Nat) (line : List Char) : List Char :=
  if line.isEmpty then [] else indentation (depth - leadingCloses line) ++ line

/-- Indents lines that are reached with `depth` open braces. -/
def indentFrom (depth : Nat) : List (List Char) → List (List Char)
  | [] => []
  | line :: lines =>
    let trimmed := Text.trimChars line
    place depth trimmed :: indentFrom (depthAfter depth trimmed) lines

/-- Trims and indents lines by the braces open before each of them. -/
def indent (lines : List String) : List String :=
  (indentFrom 0 (lines.map String.toList)).map String.ofList

/-- The text of a file: its lines indented, with a line end after the last as well. -/
def format (lines : List String) (newline : Newline) : String :=
  Text.join newline.text (indent lines) ++ newline.text

private theorem length_indentFrom (depth : Nat) (lines : List (List Char)) :
    (indentFrom depth lines).length = lines.length := by
  induction lines generalizing depth with
  | nil => rfl
  | cons line lines ih => simp [indentFrom, ih]

/-- Indenting keeps the number of lines. -/
theorem length_indent (lines : List String) : (indent lines).length = lines.length := by
  simp [indent, length_indentFrom]

end ApiTypings.Layout
