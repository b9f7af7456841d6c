import ApiTypings.Proofs.TypeScript.Interface
import ApiTypings.TypeScript.Literal

/-!
# Quoted text is read back

A string literal is closed by the first quote that no backslash stands before, and the escapes of
the writer are undone on the way there. A line feed or a carriage return in the text has no escape:
then what is written is no string literal at all. Every other text is the value of its literal, and
the name that its key gives, whether the key is quoted or not.
-/

namespace ApiTypings.TypeScript

open Literal Grammar

variable {c : Char} {cs rest rest' v : List Char}

/-! ## One character at a time -/

/-- A quote ends a string. -/
theorem stringBody_quote_iff : StringBody ('"' :: cs) v rest ↔ v = [] ∧ rest = cs := by
  constructor
  · intro h
    cases h with
    | close => exact ⟨rfl, rfl⟩
    | char hquote => exact absurd rfl hquote
  · rintro ⟨rfl, rfl⟩
    exact .close _

private theorem stringBody_backslash_iff : StringBody ('\\' :: cs) v rest ↔
    ∃ u ds w, escape? cs = some (u, ds) ∧ StringBody ds w rest ∧ v = u ++ w := by
  constructor
  · intro h
    cases h with
    | escape hescape hbody => exact ⟨_, _, _, hescape, hbody, rfl⟩
    | char _ hbackslash => exact absurd rfl hbackslash
  · rintro ⟨u, ds, w, hescape, hbody, rfl⟩
    exact .escape hescape hbody

/-- Other characters stand for themselves, but for the ends of lines. -/
theorem stringBody_cons_iff (hquote : c ≠ '"') (hbackslash : c ≠ '\\') :
    StringBody (c :: cs) v rest ↔
      (c ≠ '\n' ∧ c ≠ '\r') ∧ ∃ w, StringBody cs w rest ∧ v = c :: w := by
  constructor
  · intro h
    cases h with
    | close => exact absurd rfl hquote
    | escape => exact absurd rfl hbackslash
    | char _ _ hfeed hreturn hbody => exact ⟨⟨hfeed, hreturn⟩, _, hbody, rfl⟩
  · rintro ⟨⟨hfeed, hreturn⟩, w, hbody, rfl⟩
    exact .char hquote hbackslash hfeed hreturn hbody

/-- A character that the writers escape stands for itself behind a backslash. -/
theorem escape?_self (h : c ∈ ['\\', '"', '\x60', '$']) (cs : List Char) :
    escape? (c :: cs) = some ([c], cs) := by
  simp only [List.mem_cons, List.not_mem_nil, or_false] at h
  rcases h with rfl | rfl | rfl | rfl <;> rfl

/-! ## Whole texts -/

/-- A text without line feeds and carriage returns. -/
def OneLine (s : String) : Prop := ∀ c ∈ s.toList, c ≠ '\n' ∧ c ≠ '\r'

/-- An escaped text is read up to the quote behind it, if it is on one line. -/
theorem stringBody_escaped_iff :
    StringBody (escapeQuotedChars cs ++ '"' :: rest) v rest' ↔
      v = cs ∧ rest' = rest ∧ ∀ c ∈ cs, c ≠ '\n' ∧ c ≠ '\r' := by
  rw [escapeQuotedChars_eq]
  induction cs generalizing v with
  | nil => simp [stringBody_quote_iff]
  | cons c cs ih =>
    rw [List.flatMap_cons, List.append_assoc, escapedChar, List.forall_mem_cons]
    split
    · next hescaped =>
      have hself := escape?_self (c := c) (by rcases hescaped with rfl | rfl <;> simp)
        (cs.flatMap escapedChar ++ '"' :: rest)
      have hline : c ≠ '\n' ∧ c ≠ '\r' := by
        rcases hescaped with rfl | rfl <;> decide
      rw [List.cons_append, List.cons_append, List.nil_append, stringBody_backslash_iff, hself]
      constructor
      · rintro ⟨_, _, w, ⟨⟩, hbody, rfl⟩
        obtain ⟨rfl, hrest, hlines⟩ := ih.mp hbody
        exact ⟨rfl, hrest, hline, hlines⟩
      · rintro ⟨rfl, hrest, _, hlines⟩
        exact ⟨_, _, cs, rfl, ih.mpr ⟨rfl, hrest, hlines⟩, rfl⟩
    · next hplain =>
      obtain ⟨hbackslash, hquote⟩ := not_or.mp hplain
      rw [List.singleton_append, stringBody_cons_iff hquote hbackslash]
      constructor
      · rintro ⟨hline, w, hbody, rfl⟩
        obtain ⟨rfl, hrest, hlines⟩ := ih.mp hbody
        exact ⟨rfl, hrest, hline, hlines⟩
      · rintro ⟨rfl, hrest, hline, hlines⟩
        exact ⟨hline, cs, ih.mpr ⟨rfl, hrest, hlines⟩, rfl⟩

variable {s name : String}

private theorem toList_quoted_append (s : String) (rest : List Char) :
    (quoted s).toList ++ rest = '"' :: (escapeQuotedChars s.toList ++ '"' :: rest) := by
  simp [quoted, escapeQuoted]

/-- What is written for a text is a string literal with that value, and with no other, if the text
is on one line; else it is none. -/
theorem stringLiteral_quoted_iff :
    StringLiteral ((quoted s).toList ++ rest) name rest' ↔ name = s ∧ rest' = rest ∧ OneLine s := by
  rw [toList_quoted_append]
  constructor
  · rintro ⟨hbody⟩
    obtain ⟨rfl, hrest, hline⟩ := stringBody_escaped_iff.mp hbody
    exact ⟨String.ofList_toList, hrest, hline⟩
  · rintro ⟨rfl, hrest, hline⟩
    have hbody := StringLiteral.quoted (stringBody_escaped_iff.mpr ⟨rfl, hrest, hline⟩)
    rwa [String.ofList_toList] at hbody

/-! ## Keys -/

private theorem oneLine_of_isName (h : isName s.toList = true) : OneLine s := by
  intro c hc
  have hname := isNameChar_of_isName h c hc
  constructor
  · rintro rfl
    exact absurd hname (by decide)
  · rintro rfl
    exact absurd hname (by decide)

/-- A key is a plain name or a string. -/
theorem key_eq (s : String) :
    key s = s ∧ isPlainName s.toList = true ∨ key s = quoted s := by
  unfold key needsQuotes
  cases isPlainName s.toList <;> simp

/-- A plain key is read to its end. -/
theorem key_plain_iff (h : isPlainName s.toList = true) (hrest : EndsName rest) :
    Key (s.toList ++ rest) name rest' ↔ name = s ∧ rest' = rest := by
  have hname := isName_of_isPlainName h
  constructor
  · intro hkey
    generalize hcs : s.toList ++ rest = cs at hkey
    cases hkey with
    | name hread hends =>
      obtain ⟨hsame, hafter⟩ := append_inj_of_stops (isNameChar_of_isName hname)
        (isNameChar_of_isName hread) hrest hends hcs
      rw [← hsame, ← hafter]
      exact ⟨String.ofList_toList, rfl⟩
    | string hstring =>
      cases hstring
      have hneeds : needsQuotes s = false := by
        rw [needsQuotes, h]
        rfl
      exact absurd hcs (plain_ne_quoted hneeds)
  · rintro ⟨rfl, rfl⟩
    have hkey := Key.name hname hrest
    rwa [String.ofList_toList] at hkey

/-- A name does not start with a quote. -/
theorem key_quote_iff : Key ('"' :: cs) name rest ↔ StringLiteral ('"' :: cs) name rest := by
  constructor
  · intro hkey
    generalize hds : '"' :: cs = ds at hkey
    cases hkey with
    | name hread =>
      obtain ⟨d, read, rfl, hd⟩ := exists_cons_of_isName hread
      cases hds
      exact absurd hd (by decide)
    | string hstring => exact hds ▸ hstring
  · exact .string

/-- A key gives the name that it was made from, and no other, if the name is on one line; else it is
no key. -/
theorem key_read_iff (hrest : EndsName rest) :
    Key ((key s).toList ++ rest) name rest' ↔ name = s ∧ rest' = rest ∧ OneLine s := by
  rcases key_eq s with ⟨hkey, hplain⟩ | hkey
  · have hline := oneLine_of_isName (isName_of_isPlainName hplain)
    rw [hkey, key_plain_iff hplain hrest]
    simp only [hline, and_true]
  · rw [hkey, ← stringLiteral_quoted_iff, toList_quoted_append]
    exact key_quote_iff

/-- String literals and keys denote the text that they were made from exactly when it is on one
line: a line feed or a carriage return in it is written as it is, and no literal holds one. -/
theorem literal_denotes_iff (s : String) :
    (∀ rest value rest', StringLiteral ((Expr.string s).text.toList ++ rest) value rest' ↔
        value = s ∧ rest' = rest ∧ OneLine s) ∧
      (key s = s ∧ isName s.toList = true ∨ key s = (Expr.string s).text) ∧
      ∀ rest, EndsName rest → ∀ name rest', Key ((key s).toList ++ rest) name rest' ↔
        name = s ∧ rest' = rest ∧ OneLine s := by
  refine ⟨?literal, ?key, ?read⟩
  case literal =>
    intro rest value rest'
    rw [Expr.text]
    exact stringLiteral_quoted_iff
  case key =>
    rw [Expr.text]
    exact (key_eq s).imp_left (And.imp_right isName_of_isPlainName)
  case read =>
    intro rest hrest name rest'
    exact key_read_iff hrest

end ApiTypings.TypeScript

namespace ApiTypings.Shop

open TypeScript Literal

/-- The key of a property whose name has two lines is quoted, and it is neither a string literal nor
a key. -/
theorem not_key_deliveryNotes :
    key "Delivery\nnotes" = quoted "Delivery\nnotes" ∧
      ∀ name rest, ¬ StringLiteral (quoted "Delivery\nnotes").toList name rest ∧
        ¬ Key (key "Delivery\nnotes").toList name rest := by
  have hlines : ¬ OneLine "Delivery\nnotes" := by
    intro hline
    exact (hline '\n' (by decide)).1 rfl
  refine ⟨by decide, ?_⟩
  intro name rest
  constructor
  · intro hliteral
    rw [← List.append_nil (quoted _).toList, stringLiteral_quoted_iff] at hliteral
    exact hlines hliteral.2.2
  · intro hkey
    rw [← List.append_nil (key _).toList, key_read_iff (by rintro _ ⟨⟩)] at hkey
    exact hlines hkey.2.2

end ApiTypings.Shop
