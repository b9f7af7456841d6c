import ApiTypings.Text.Visible

/-!
# Text shown in messages

A text that a message quotes stands between double quotes. Quotes, backslashes, tabs and line
ends are escaped by a backslash and a letter, the null character by a zero, and any other hidden
character by its number in braces.
-/

namespace ApiTypings.Text

/-- A character as it is shown between quotes. -/
def shownChar (c : Char) : List Char :=
  match c with
  | '\x00' => ['\\', '0']
  | '\t' => ['\\', 't']
  | '\r' => ['\\', 'r']
  | '\n' => ['\\', 'n']
  | '\\' => ['\\', '\\']
  | '"' => ['\\', '"']
  | c =>
    if isHidden c then '\\' :: 'u' :: '\x7b' :: (Nat.toDigits 16 c.toNat ++ ['\x7d']) else [c]

/-- A text between double quotes, every character visible. -/
def shown (s : String) : String :=
  "\"" ++ String.ofList (s.toList.flatMap shownChar) ++ "\""

end ApiTypings.Text
