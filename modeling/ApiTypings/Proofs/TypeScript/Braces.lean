import ApiTypings.Proofs.Generation.Spelling
import ApiTypings.Proofs.TypeScript.Escapes
import ApiTypings.Proofs.TypeScript.Interface
import ApiTypings.TypeScript.Outline

/-!
# Braces in emitted text

Where the atoms of an expression hold no brace, the only braces in its text are those of object
literals and of the values in template literals, and they come in pairs. Types, keys, properties
and signatures have no brace at all.
-/

namespace ApiTypings.TypeScript

/-- As many braces are opened in the text as are closed. -/
def Balanced (s : String) : Prop := s.toList.count '\x7b' = s.toList.count '\x7d'
  deriving Decidable

variable {s t sep : String} {ss : List String}

/-! ## Texts put together -/

/-- A text without braces is balanced. -/
theorem Braceless.balanced (h : Braceless s) : Balanced s := by
  rw [Balanced, List.count_eq_zero_of_not_mem h.1, List.count_eq_zero_of_not_mem h.2]

/-- Balanced texts are balanced together. -/
theorem Balanced.append (hs : Balanced s) (ht : Balanced t) : Balanced (s ++ t) := by
  unfold Balanced at *
  simp only [String.toList_append, List.count_append]
  omega

/-- A balanced text between two that balance each other. -/
theorem Balanced.between {before after : String} (hs : Balanced s)
    (h : Balanced (before ++ after)) : Balanced (before ++ s ++ after) := by
  unfold Balanced at *
  simp only [String.toList_append, List.count_append] at *
  omega

/-- Texts without braces have none when they are joined without. -/
theorem Braceless.join (hsep : Braceless sep) (h : ∀ s ∈ ss, Braceless s) :
    Braceless (Text.join sep ss) :=
  ⟨Text.not_mem_join hsep.1 fun s hs => (h s hs).1,
    Text.not_mem_join hsep.2 fun s hs => (h s hs).2⟩

/-- Balanced texts are balanced when they are joined by one. -/
theorem Balanced.join (hsep : Balanced sep) (h : ∀ s ∈ ss, Balanced s) :
    Balanced (Text.join sep ss) := by
  fun_induction Text.join sep ss with
  | case1 => exact rfl
  | case2 s => exact h s (List.mem_singleton_self s)
  | case3 s t rest ih =>
    rw [List.forall_mem_cons] at h
    exact (h.1.append hsep).append (ih h.2)

/-- Arguments have no braces of their own. -/
theorem braceless_angled (h : ∀ s ∈ ss, Braceless s) : Braceless (angled ss) := by
  unfold angled
  split
  · decide
  · exact (Braceless.append (by decide) (Braceless.join (by decide) h)).append (by decide)

private theorem braceless_quoted (h : Braceless s) : Braceless (quoted s) := by
  have hescaped : Braceless (escapeQuoted s) := by
    unfold Braceless escapeQuoted
    rw [String.toList_ofList]
    constructor
    · intro hmem
      exact (mem_of_mem_escapeQuotedChars hmem).elim (by decide) h.1
    · intro hmem
      exact (mem_of_mem_escapeQuotedChars hmem).elim (by decide) h.2
  exact (Braceless.append (by decide) hescaped).append (by decide)

/-- A key has no braces of its own. -/
theorem braceless_key (h : Braceless s) : Braceless (key s) := by
  unfold key
  split
  · exact braceless_quoted h
  · exact h

private theorem braceless_escapeTemplate (h : Braceless s) : Braceless (escapeTemplate s) := by
  unfold Braceless escapeTemplate
  rw [String.toList_ofList]
  constructor
  · intro hmem
    exact (mem_of_mem_escapeTemplateChars hmem).elim (by decide) h.1
  · intro hmem
    exact (mem_of_mem_escapeTemplateChars hmem).elim (by decide) h.2

/-- The mark of what is optional is no brace. -/
theorem braceless_optionalMark (optional : Bool) : Braceless (optionalMark optional) := by
  cases optional <;> decide

/-! ## Types -/

mutual

/-- A type has no braces but those of its names. -/
theorem TypeExpr.braceless_text :
    ∀ t : TypeExpr, (∀ s ∈ t.names, Braceless s) → Braceless t.text
  | primitive type, _ => by cases type <;> decide
  | array element, h => by
    have helement := braceless_text element h
    unfold text
    split
    · exact (Braceless.append (by decide) helement).append (by decide)
    · exact helement.append (by decide)
  | union alternatives, h => .join (by decide) (braceless_texts alternatives h)
  | record key value, h => by
    rw [names, List.forall_mem_append] at h
    have hkey := Braceless.append (s := "Record<") (by decide) (braceless_text key h.1)
    exact ((hkey.append (by decide)).append (braceless_text value h.2)).append (by decide)
  | ref name, h => h name (List.mem_singleton_self name)
  | generic name args, h => by
    rw [names, List.forall_mem_cons] at h
    have hargs := Braceless.join (show Braceless ", " by decide) (braceless_texts args h.2)
    exact ((h.1.append (by decide)).append hargs).append (by decide)

private theorem TypeExpr.braceless_texts :
    ∀ ts : List TypeExpr, (∀ s ∈ namesOfAll ts, Braceless s) → ∀ s ∈ texts ts, Braceless s
  | [], _ => nofun
  | t :: ts, h => by
    rw [namesOfAll, List.forall_mem_append] at h
    exact List.forall_mem_cons.mpr ⟨braceless_text t h.1, braceless_texts ts h.2⟩

end

/-! ## Expressions -/

mutual

/-- The text of an expression is balanced. -/
theorem Expr.balanced_text : ∀ e : Expr, (∀ s ∈ e.atoms, Braceless s) → Balanced e.text
  | .ident name, h => (h name (List.mem_singleton_self name)).balanced
  | .string value, h => (braceless_quoted (h value (List.mem_singleton_self value))).balanced
  | .call callee typeArgs args, h => by
    rw [Expr.atoms, List.forall_mem_append, List.forall_mem_append] at h
    have hgenerics := (braceless_angled (TypeExpr.braceless_texts typeArgs h.1.2)).balanced
    have hargs := Balanced.join (show Balanced ", " by decide) (Expr.balanced_texts args h.2)
    have hcallee := (Expr.balanced_text callee h.1.1).append hgenerics
    exact ((hcallee.append (by decide)).append hargs).append (by decide)
  | .object fields, h => by
    have hfields := Balanced.join (show Balanced ", " by decide) (Expr.balanced_fieldTexts fields h)
    rw [Expr.text]
    split
    · decide
    · exact hfields.between (by decide)
  | .member object property, h => by
    rw [Expr.atoms, List.forall_mem_append, List.forall_mem_singleton] at h
    exact ((Expr.balanced_text object h.1).append (by decide)).append h.2.balanced
  | .template parts, h => by
    have hparts := Balanced.join (show Balanced "" by decide) (TemplatePart.balanced_texts parts h)
    exact (Balanced.append (by decide) hparts).append (by decide)

private theorem Expr.balanced_texts :
    ∀ es : List Expr, (∀ s ∈ Expr.atomsOfAll es, Braceless s) → ∀ s ∈ Expr.texts es, Balanced s
  | [], _ => nofun
  | e :: es, h => by
    rw [Expr.atomsOfAll, List.forall_mem_append] at h
    exact List.forall_mem_cons.mpr ⟨Expr.balanced_text e h.1, Expr.balanced_texts es h.2⟩

private theorem Expr.balanced_fieldTexts :
    ∀ fields : List (String × Expr), (∀ s ∈ Expr.fieldAtoms fields, Braceless s) →
      ∀ s ∈ Expr.fieldTexts fields, Balanced s
  | [], _ => nofun
  | (name, value) :: fields, h => by
    rw [Expr.fieldAtoms, List.forall_mem_cons, List.forall_mem_append] at h
    have hkey := (braceless_key h.1).balanced
    refine List.forall_mem_cons.mpr ⟨?_, Expr.balanced_fieldTexts fields h.2.2⟩
    exact (hkey.append (by decide)).append (Expr.balanced_text value h.2.1)

/-- The text of a part of a template is balanced. -/
theorem TemplatePart.balanced_written :
    ∀ p : TemplatePart, (∀ s ∈ p.atoms, Braceless s) → Balanced p.written
  | .text value, h => (braceless_escapeTemplate (h value (List.mem_singleton_self value))).balanced
  | .hole value, h => (Expr.balanced_text value h).between (by decide)

private theorem TemplatePart.balanced_texts :
    ∀ ps : List TemplatePart, (∀ s ∈ TemplatePart.atomsOfAll ps, Braceless s) →
      ∀ s ∈ TemplatePart.texts ps, Balanced s
  | [], _ => nofun
  | p :: ps, h => by
    rw [TemplatePart.atomsOfAll, List.forall_mem_append] at h
    exact List.forall_mem_cons.mpr
      ⟨TemplatePart.balanced_written p h.1, TemplatePart.balanced_texts ps h.2⟩

end

end ApiTypings.TypeScript
