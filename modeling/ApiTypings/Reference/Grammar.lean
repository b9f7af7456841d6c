import ApiTypings.Reference.Reader

/-!
# The grammar of references

The written forms of a reference as derivations, stated without a reader:

    reference := atom ("[]" | "?")*
    atom      := "!" digits | name ("<" reference ("," reference)* ">")?
    name      := segment ("." segment)*

Blanks may stand before an atom, before a suffix, before `<`, `,` and `>`, and at the end. They
never stand inside a name, inside `[]`, or between `!` and its digits.
-/

namespace ApiTypings.Reference.Grammar

/-- A run of blanks, which may be empty. -/
def Blanks (cs : List Char) : Prop := ∀ c ∈ cs, Text.isBlank c = true

/-- Segments with dots between them. -/
inductive Name : List Char → List (List Char) → Prop where
  | last {segment} : isSegment segment = true → Name segment [segment]
  | more {segment cs segments} : isSegment segment = true → Name cs segments →
      Name (segment ++ '.' :: cs) (segment :: segments)

mutual

/-- An atom and the suffixes after it. -/
inductive Written : List Char → Reference → Prop where
  | atom {cs r} : Atom cs r → Written cs r
  | array {cs blanks r} : Written cs r → Blanks blanks →
      Written (cs ++ blanks ++ ['[', ']']) (array r)
  | nullable {cs blanks r} : Written cs r → Blanks blanks →
      Written (cs ++ blanks ++ ['?']) (nullable r)

/-- A generic parameter, or a name with or without arguments. -/
inductive Atom : List Char → Reference → Prop where
  | param {blanks digits} : Blanks blanks → digits ≠ [] → digits.all Char.isDigit = true →
      Text.decimal digits < positionBound →
      Atom (blanks ++ '!' :: digits) (param (Text.decimal digits))
  | simple {blanks name segments} : Blanks blanks → Name name segments →
      Atom (blanks ++ name) (ofSegments segments [])
  | generic {blanks name segments gap inside args} : Blanks blanks → Name name segments →
      Blanks gap → Arguments inside args →
      Atom (blanks ++ name ++ gap ++ '<' :: inside) (ofSegments segments args)

/-- The arguments of a generic with the `>` that ends them. -/
inductive Arguments : List Char → List Reference → Prop where
  | last {cs blanks r} : Written cs r → Blanks blanks →
      Arguments (cs ++ blanks ++ ['>']) [r]
  | more {cs blanks rest r rs} : Written cs r → Blanks blanks → Arguments rest rs →
      Arguments (cs ++ blanks ++ ',' :: rest) (r :: rs)

end

/-- A whole text: one reference and the blanks after it. -/
inductive Whole : List Char → Reference → Prop where
  | mk {cs blanks r} : Written cs r → Blanks blanks → Whole (cs ++ blanks) r

end ApiTypings.Reference.Grammar
