/-!
# Blank characters

A character is blank when it has the Unicode property `White_Space`. Blanks separate the parts
of a type reference, and a line is trimmed of them before it is indented. The two cuts below
only ever remove blanks from an end: `dropBlanks_idempotent` and `dropBlanks_head` say where the
first of them stops.
-/

namespace ApiTypings.Text

/-- The Unicode property `White_Space`: 25 characters in ten ranges. -/
def isBlank (c : Char) : Bool :=
  let n := c.toNat
  (0x09 ≤ n && n ≤ 0x0D) || n == 0x20 || n == 0x85 || n == 0xA0 || n == 0x1680
    || (0x2000 ≤ n && n ≤ 0x200A) || n == 0x2028 || n == 0x2029 || n == 0x202F
    || n == 0x205F || n == 0x3000

/-- What is left of a text after its leading blanks. -/
def dropBlanks (cs : List Char) : List Char := cs.dropWhile isBlank

/-- A text without its trailing blanks. -/
def dropBlanksEnd : List Char → List Char
  | [] => []
  | c :: cs =>
    match dropBlanksEnd cs with
    | [] => if isBlank c then [] else [c]
    | rest => c :: rest

/-- A text without the blanks at either end. -/
def trimChars (cs : List Char) : List Char := dropBlanksEnd (dropBlanks cs)

/-- `trimChars` on a string. -/
def trim (s : String) : String := String.ofList (trimChars s.toList)

/-- Dropping adds no characters. -/
theorem length_dropWhile_le (p : Char → Bool) (cs : List Char) :
    (cs.dropWhile p).length ≤ cs.length := by
  induction cs with
  | nil => simp
  | cons c cs ih =>
    rw [List.dropWhile_cons]
    split
    · exact Nat.le_succ_of_le ih
    · exact Nat.le_refl _

/-- Dropping blanks never lengthens a text. -/
theorem length_dropBlanks_le (cs : List Char) : (dropBlanks cs).length ≤ cs.length :=
  length_dropWhile_le _ cs

/-- What follows the leading blanks starts with a character that is not blank. -/
theorem dropBlanks_head {cs rest : List Char} {c : Char} (h : dropBlanks cs = c :: rest) :
    isBlank c = false := by
  induction cs with
  | nil => simp [dropBlanks] at h
  | cons d cs ih =>
    rw [dropBlanks, List.dropWhile_cons] at h
    split at h
    · exact ih h
    · next hd => cases h; simpa using hd

/-- Once dropped, no leading blank is left to drop. -/
theorem dropBlanks_idempotent (cs : List Char) : dropBlanks (dropBlanks cs) = dropBlanks cs := by
  cases h : dropBlanks cs with
  | nil => rfl
  | cons c rest => simp [dropBlanks, dropBlanks_head h]

end ApiTypings.Text
