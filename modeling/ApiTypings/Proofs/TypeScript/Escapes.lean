import ApiTypings.Text.Pieces
import ApiTypings.TypeScript.Names

/-!
# Escapes are replacements

The escapes of quoted text and of template text replace one text after another: first the
backslashes are doubled, so that no backslash which a later replacement puts in is doubled too. What
the replacements make in one run after another is what one run over the text makes.
-/

namespace ApiTypings.TypeScript

open Text (replace replace_nil replace_cons replace_self replace_of_ne replace_append
  head_of_head_replace)

/-- Text between quotes has its backslashes doubled and then its quotes escaped. -/
theorem escapeQuotedChars_eq_replace (cs : List Char) :
    escapeQuotedChars cs =
      replace ['"'] ['\\', '"'] (replace ['\\'] ['\\', '\\'] cs) := by
  fun_induction escapeQuotedChars cs with
  | case1 => rw [replace_nil, replace_nil]
  | case2 cs ih =>
    rw [replace_self, List.cons_append, List.cons_append, List.nil_append,
      replace_of_ne (by decide), replace_of_ne (by decide), ih]
  | case3 cs ih =>
    rw [replace_of_ne (by decide), replace_self, ih]
    rfl
  | case4 c cs hbackslash hquote ih =>
    rw [replace_of_ne hbackslash, replace_of_ne hquote, ih]

/-- Text in a template has its backslashes doubled, then its accents escaped, and then each `$`
before a brace. -/
theorem escapeTemplateChars_eq_replace (cs : List Char) :
    escapeTemplateChars cs =
      replace ['$', '\x7b'] ['\\', '$', '\x7b']
        (replace ['\x60'] ['\\', '\x60'] (replace ['\\'] ['\\', '\\'] cs)) := by
  fun_induction escapeTemplateChars cs with
  | case1 => rw [replace_nil, replace_nil, replace_nil]
  | case2 cs ih =>
    rw [replace_self, List.cons_append, List.cons_append, List.nil_append]
    iterate 4 rw [replace_of_ne (by decide)]
    rw [ih]
  | case3 cs ih =>
    rw [replace_of_ne (by decide), replace_self, List.cons_append, List.cons_append,
      List.nil_append, replace_of_ne (by decide), replace_of_ne (by decide), ih]
  | case4 cs ih =>
    rw [replace_of_ne (show '$' ≠ '\\' by decide), replace_of_ne (show '\x7b' ≠ '\\' by decide),
      replace_of_ne (show '$' ≠ '\x60' by decide), replace_of_ne (show '\x7b' ≠ '\x60' by decide),
      ih]
    exact (@replace_append ['\\', '$', '\x7b'] ['$'] _ '\x7b').symm
  | case5 c cs hbackslash haccent hdollar ih =>
    rw [replace_of_ne hbackslash, replace_of_ne haccent, replace_cons, ih]
    -- The replacements before put no brace behind a dollar sign.
    intro hprefix
    obtain ⟨hc, hafter⟩ := List.cons_prefix_cons.mp hprefix
    obtain ⟨after, hbrace⟩ := hafter
    have hhead := head_of_head_replace (d := '\x7b') (by decide)
      (congrArg List.head? hbrace).symm
    have hfirst := head_of_head_replace (d := '\x7b') (by decide) hhead
    obtain ⟨rest, hrest⟩ := List.head?_eq_some_iff.mp hfirst
    exact hdollar rest hc.symm hrest

/-! ## What the escapes put in -/

variable {c : Char} {cs : List Char}

/-- An escaped text holds no characters but its own and backslashes. -/
theorem mem_of_mem_escapeQuotedChars (h : c ∈ escapeQuotedChars cs) : c = '\\' ∨ c ∈ cs := by
  fun_induction escapeQuotedChars cs with
  | case1 => cases h
  | case2 cs ih | case3 cs ih | case4 d cs _ _ ih =>
    simp only [List.mem_cons] at h ⊢
    grind

/-- Escaping a template adds backslashes only. -/
theorem mem_of_mem_escapeTemplateChars (h : c ∈ escapeTemplateChars cs) :
    c = '\\' ∨ c ∈ cs := by
  fun_induction escapeTemplateChars cs with
  | case1 => cases h
  | case2 cs ih | case3 cs ih | case4 cs ih | case5 d cs _ _ _ ih =>
    simp only [List.mem_cons] at h ⊢
    grind

/-- Only the brace that a text starts with starts the escaped text. -/
theorem head_of_head_escapeTemplateChars (h : (escapeTemplateChars cs).head? = some '\x7b') :
    cs.head? = some '\x7b' := by
  fun_cases escapeTemplateChars cs with
  | case1 => exact h
  | case2 => cases h
  | case3 => cases h
  | case4 => cases h
  | case5 c cs hbackslash haccent hdollar =>
    rw [escapeTemplateChars] at h
    · exact h
    · exact hbackslash
    · exact haccent
    · exact hdollar

end ApiTypings.TypeScript
