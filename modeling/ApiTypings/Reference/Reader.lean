import ApiTypings.Reference.Basic
import ApiTypings.Text.Digits

/-!
# Reading references

The syntax of a reference, blanks allowed between its tokens:

    reference := atom ("[]" | "?")*
    atom      := "!" digits | name ("<" reference ("," reference)* ">")?
    name      := segment ("." segment)*

A reader works on what is left of the text. When it succeeds it returns a strictly shorter rest,
which is why reading ends; when it fails it returns the text left at that point, from which the
byte offset of the fault follows.
-/

namespace ApiTypings

/-- What can be wrong with a written reference. -/
inductive ReferenceFault.Reason where
  | trailingInput
  | parameterPosition
  | argumentList
  | typeName
  deriving DecidableEq, Repr

/-- A written reference that cannot be read, and where reading stopped. -/
structure ReferenceFault where
  /-- The whole text. -/
  text : String
  /-- What was expected there. -/
  reason : ReferenceFault.Reason
  /-- Offset of the fault in bytes of UTF-8. -/
  offset : Nat
  deriving DecidableEq, Repr

namespace ReferenceFault

/-- The wording of a reason. -/
def Reason.message : Reason → String
  | .trailingInput => "unexpected trailing input"
  | .parameterPosition => "expected a generic parameter position after `!`"
  | .argumentList => "expected `,` or `>` in generic argument list"
  | .typeName => "expected a type name"

/-- The wording of a fault. -/
def message (fault : ReferenceFault) : String :=
  "invalid type reference `" ++ fault.text ++ "`: " ++ fault.reason.message ++ " at offset " ++
    toString fault.offset

end ReferenceFault

namespace Reference

/-- A reader that gave up: why, and the text left when it did. -/
structure Stop where
  /-- Why the reader gave up. -/
  reason : ReferenceFault.Reason
  /-- The text left at that point. -/
  rest : List Char
  deriving DecidableEq, Repr

/-- Positions of generic parameters are numbers of 64 bits, below this bound. -/
def positionBound : Nat := UInt64.size

/-- The characters of a segment of a name: ASCII letters and digits, `_` and `+`. -/
def isNameChar (c : Char) : Bool := c.isAlphanum || c == '_' || c == '+'

/-- A run of name characters that is not empty and does not start with a digit. -/
def isSegment : List Char → Bool
  | [] => false
  | c :: cs => isNameChar c && !c.isDigit && cs.all isNameChar

/-- Applies `[]` and `?` to what stands before them, skipping blanks, until neither follows. -/
def readSuffixes (r : Reference) : List Char → Reference × List Char
  | '[' :: ']' :: rest => readSuffixes (array r) rest
  | '?' :: rest => readSuffixes (nullable r) rest
  | c :: rest => if Text.isBlank c then readSuffixes r rest else (r, c :: rest)
  | [] => (r, [])

/-- Reads the position of a generic parameter, after its `!`. -/
def readPosition (cs : List Char) : Except Stop (Nat × List Char) :=
  let digits := cs.takeWhile Char.isDigit
  let rest := cs.dropWhile Char.isDigit
  if digits ≠ [] ∧ Text.decimal digits < positionBound then .ok (Text.decimal digits, rest)
  else .error ⟨.parameterPosition, rest⟩

/-- A segment leaves less text. -/
theorem length_dropWhile_lt_of_isSegment {cs : List Char}
    (h : isSegment (cs.takeWhile isNameChar) = true) :
    (cs.dropWhile isNameChar).length < cs.length := by
  have hne : cs.takeWhile isNameChar ≠ [] := by
    intro he
    simp [he, isSegment] at h
  have hlen := congrArg List.length (List.takeWhile_append_dropWhile (p := isNameChar) (l := cs))
  rw [List.length_append] at hlen
  have := List.length_pos_iff.mpr hne
  omega

/-- Reads the segments of a dotted name. -/
def readName (cs : List Char) : Except Stop (List (List Char) × Text.Remainder cs) :=
  let segment := cs.takeWhile isNameChar
  if h : isSegment segment = true then
    have shorter := length_dropWhile_lt_of_isSegment h
    match hd : cs.dropWhile isNameChar with
    | '.' :: more => do
      let (segments, rest) ← readName more
      return (segment :: segments, ⟨rest.1, by
        have := rest.2
        simp only [hd, List.length_cons] at shorter
        omega⟩)
    | rest => .ok ([segment], ⟨rest, hd ▸ shorter⟩)
  else .error ⟨.typeName, cs.dropWhile isNameChar⟩
termination_by cs.length
decreasing_by
  simp only [hd, List.length_cons] at shorter
  omega

/-- The named reference that a list of segments and a list of arguments make. -/
def ofSegments (segments : List (List Char)) (args : List Reference) : Reference :=
  generic (Text.join "." (segments.map String.ofList)) args

private theorem length_readSuffixes_le (r : Reference) (cs : List Char) :
    (readSuffixes r cs).2.length ≤ cs.length := by
  fun_induction readSuffixes r cs <;> simp_all <;> omega

private theorem length_of_readPosition {cs rest : List Char} {n : Nat}
    (h : readPosition cs = .ok (n, rest)) : rest.length ≤ cs.length := by
  simp only [readPosition] at h
  split at h
  · cases h
    exact Text.length_dropWhile_le _ cs
  · simp at h

mutual

/-- Reads a reference: an atom and the suffixes after it. -/
def readReference (cs : List Char) : Except Stop (Reference × Text.Remainder cs) :=
  match readAtom cs with
  | .error stop => .error stop
  | .ok (atom, rest) =>
    .ok ((readSuffixes atom rest.1).1, ⟨(readSuffixes atom rest.1).2, by
      have := length_readSuffixes_le atom rest.1
      have := rest.2
      omega⟩)
termination_by (cs.length, 1)

/-- Reads a generic parameter, or a name and its arguments. -/
def readAtom (cs : List Char) : Except Stop (Reference × Text.Remainder cs) :=
  have shorter := Text.length_dropBlanks_le cs
  match hb : Text.dropBlanks cs with
  | '!' :: digits =>
    match hp : readPosition digits with
    | .error stop => .error stop
    | .ok (n, rest) => .ok (param n, ⟨rest, by
        have := length_of_readPosition hp
        simp only [hb, List.length_cons] at shorter
        omega⟩)
  | start =>
    match readName start with
    | .error stop => .error stop
    | .ok (segments, rest) =>
      have := rest.2
      have := Text.length_dropBlanks_le rest.1
      match ha : Text.dropBlanks rest.1 with
      | '<' :: inside =>
        have : inside.length + 1 = (Text.dropBlanks rest.1).length := by simp [ha]
        have : inside.length < cs.length := by
          rw [hb] at shorter
          omega
        match readArguments inside with
        | .error stop => .error stop
        | .ok (args, after) => .ok (ofSegments segments args, ⟨after.1, by
            have := after.2
            omega⟩)
      | after => .ok (ofSegments segments [], ⟨after, by
          rw [hb] at shorter
          rw [← ha]
          omega⟩)
termination_by (cs.length, 0)

/-- Reads the arguments of a generic, after its `<` and up to its `>`. -/
def readArguments (cs : List Char) : Except Stop (List Reference × Text.Remainder cs) :=
  match readReference cs with
  | .error stop => .error stop
  | .ok (arg, rest) =>
    have := rest.2
    have := Text.length_dropBlanks_le rest.1
    match hb : Text.dropBlanks rest.1 with
    | ',' :: more =>
      have : more.length + 1 = (Text.dropBlanks rest.1).length := by simp [hb]
      have : more.length < cs.length := by omega
      match readArguments more with
      | .error stop => .error stop
      | .ok (args, after) => .ok (arg :: args, ⟨after.1, by
          have := after.2
          omega⟩)
    | '>' :: after => .ok ([arg], ⟨after, by
        have : after.length + 1 = (Text.dropBlanks rest.1).length := by simp [hb]
        omega⟩)
    | after => .error ⟨.argumentList, after⟩
termination_by (cs.length, 2)

end

/-- The place of a stop in the text that was being read. -/
def Stop.locate (stop : Stop) (text : String) : ReferenceFault :=
  ⟨text, stop.reason, Text.byteLength text.toList - Text.byteLength stop.rest⟩

/-- Reads a whole text as one reference. -/
def parse (text : String) : Except ReferenceFault Reference :=
  match readReference text.toList with
  | .error stop => .error (stop.locate text)
  | .ok (r, rest) =>
    match Text.dropBlanks rest.1 with
    | [] => .ok r
    | after => .error (Stop.locate ⟨.trailingInput, after⟩ text)

end Reference

end ApiTypings
