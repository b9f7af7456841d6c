import ApiTypings.Proofs.TypeScript.Escapes
import ApiTypings.Proofs.TypeScript.Quoted

/-!
# Stretches of text are read back

In a template a stretch of text ends at the first accent, or at the first dollar sign before a
brace, that no backslash stands before. The escapes of the writer leave none of these in a text, nor
at its end: a text that ends in a dollar sign is followed by an accent or by another dollar sign,
never by a brace. A carriage return has no escape and is read as a line feed; every other character
is read as it was written.
-/

namespace ApiTypings.TypeScript.Literal

variable {c : Char} {cs rest rest' v : List Char}

/-! ## One character at a time -/

/-- An accent ends a stretch. -/
theorem stretch_accent_iff : Stretch ('\x60' :: cs) v rest ↔ v = [] ∧ rest = '\x60' :: cs := by
  constructor
  · intro h
    cases h with
    | accent => exact ⟨rfl, rfl⟩
    | char haccent => exact absurd rfl haccent
  · rintro ⟨rfl, rfl⟩
    exact .accent _

/-- A hole ends a stretch. -/
theorem stretch_brace_iff :
    Stretch ('$' :: '\x7b' :: cs) v rest ↔ v = [] ∧ rest = '$' :: '\x7b' :: cs := by
  constructor
  · intro h
    cases h with
    | brace => exact ⟨rfl, rfl⟩
    | dollar hbrace => exact absurd rfl hbrace
    | char _ hdollar => exact absurd rfl hdollar
  · rintro ⟨rfl, rfl⟩
    exact .brace _

private theorem stretch_dollar_iff (hbrace : cs.head? ≠ some '\x7b') :
    Stretch ('$' :: cs) v rest ↔ ∃ w, Stretch cs w rest ∧ v = '$' :: w := by
  constructor
  · intro h
    cases h with
    | brace => exact absurd rfl hbrace
    | dollar _ hrest => exact ⟨_, hrest, rfl⟩
    | char _ hdollar => exact absurd rfl hdollar
  · rintro ⟨w, hrest, rfl⟩
    exact .dollar hbrace hrest

private theorem stretch_backslash_iff : Stretch ('\\' :: cs) v rest ↔
    ∃ u ds w, escape? cs = some (u, ds) ∧ Stretch ds w rest ∧ v = u ++ w := by
  constructor
  · intro h
    cases h with
    | escape hescape hrest => exact ⟨_, _, _, hescape, hrest, rfl⟩
    | char _ _ hbackslash => exact absurd rfl hbackslash
  · rintro ⟨u, ds, w, hescape, hrest, rfl⟩
    exact .escape hescape hrest

/-- A character that the writers escape is read as itself. -/
theorem stretch_escaped_cons_iff (h : c ∈ ['\\', '"', '\x60', '$']) :
    Stretch ('\\' :: c :: cs) v rest ↔ ∃ w, Stretch cs w rest ∧ v = c :: w := by
  rw [stretch_backslash_iff, escape?_self h]
  constructor
  · rintro ⟨_, _, w, ⟨⟩, hrest, rfl⟩
    exact ⟨w, hrest, rfl⟩
  · rintro ⟨w, hrest, rfl⟩
    exact ⟨_, _, w, rfl, hrest, rfl⟩

private theorem stretch_cons_iff (haccent : c ≠ '\x60') (hdollar : c ≠ '$') (hbackslash : c ≠ '\\')
    (hreturn : c ≠ '\r') :
    Stretch (c :: cs) v rest ↔ ∃ w, Stretch cs w rest ∧ v = c :: w := by
  constructor
  · intro h
    cases h with
    | accent => exact absurd rfl haccent
    | brace => exact absurd rfl hdollar
    | dollar => exact absurd rfl hdollar
    | escape => exact absurd rfl hbackslash
    | lineEnd => exact absurd rfl hreturn
    | carriageReturn => exact absurd rfl hreturn
    | char _ _ _ _ hrest => exact ⟨_, hrest, rfl⟩
  · rintro ⟨w, hrest, rfl⟩
    exact .char haccent hdollar hbackslash hreturn hrest

/-! ## Whole texts -/

/-- A text at which a stretch ends: what begins with an accent, or with a dollar sign and a
brace. -/
inductive Ends : List Char → Prop where
  | accent (cs : List Char) : Ends ('\x60' :: cs)
  | brace (cs : List Char) : Ends ('$' :: '\x7b' :: cs)

/-- Nothing is read before an end. -/
theorem Ends.stretch_iff (h : Ends rest) : Stretch rest v rest' ↔ v = [] ∧ rest' = rest := by
  cases h with
  | accent => exact stretch_accent_iff
  | brace => exact stretch_brace_iff

/-- No brace follows an escaped text, and it starts with one only if the text does. -/
theorem Ends.head_of_head_escaped (h : Ends rest)
    (hhead : (escapeTemplateChars cs ++ rest).head? = some '\x7b') : cs.head? = some '\x7b' := by
  cases hescaped : escapeTemplateChars cs with
  | nil =>
    rw [hescaped] at hhead
    cases h <;> cases hhead
  | cons d ds =>
    rw [hescaped] at hhead
    apply head_of_head_escapeTemplateChars
    rw [hescaped]
    exact hhead

private theorem exists_cons_iff {ds : List Char}
    (h : ∀ w, Stretch ds w rest' ↔ w = cs ∧ rest' = rest) :
    (∃ w, Stretch ds w rest' ∧ v = c :: w) ↔ v = c :: cs ∧ rest' = rest := by
  constructor
  · rintro ⟨w, hstretch, rfl⟩
    obtain ⟨rfl, hrest⟩ := (h w).mp hstretch
    exact ⟨rfl, hrest⟩
  · rintro ⟨rfl, hrest⟩
    exact ⟨cs, (h cs).mpr ⟨rfl, hrest⟩, rfl⟩

/-- An escaped text is a stretch up to where what follows it ends one, and is read as the text. -/
theorem Ends.stretch_escaped_iff (h : Ends rest) (hreturn : '\r' ∉ cs) :
    Stretch (escapeTemplateChars cs ++ rest) v rest' ↔ v = cs ∧ rest' = rest := by
  fun_induction escapeTemplateChars cs generalizing v with
  | case1 => exact h.stretch_iff
  | case2 cs ih =>
    rw [List.mem_cons, not_or] at hreturn
    rw [List.cons_append, List.cons_append, stretch_escaped_cons_iff (by decide)]
    exact exists_cons_iff fun _ => ih hreturn.2
  | case3 cs ih =>
    rw [List.mem_cons, not_or] at hreturn
    rw [List.cons_append, List.cons_append, stretch_escaped_cons_iff (by decide)]
    exact exists_cons_iff fun _ => ih hreturn.2
  | case4 cs ih =>
    rw [List.mem_cons, List.mem_cons, not_or, not_or] at hreturn
    rw [List.cons_append, List.cons_append, List.cons_append,
      stretch_escaped_cons_iff (by decide)]
    apply exists_cons_iff
    intro w
    rw [stretch_cons_iff (by decide) (by decide) (by decide) (by decide)]
    exact exists_cons_iff fun _ => ih hreturn.2.2
  | case5 c cs hbackslash haccent hdollar ih =>
    rw [List.mem_cons, not_or] at hreturn
    rw [List.cons_append]
    by_cases hc : c = '$'
    · -- No brace follows: neither in the text nor behind it.
      have hbrace : (escapeTemplateChars cs ++ rest).head? ≠ some '\x7b' := by
        intro hhead
        obtain ⟨after, hafter⟩ := List.head?_eq_some_iff.mp (h.head_of_head_escaped hhead)
        exact hdollar after hc hafter
      rw [hc, stretch_dollar_iff hbrace]
      exact exists_cons_iff fun _ => ih hreturn.2
    · rw [stretch_cons_iff haccent hc hbackslash (Ne.symm hreturn.1)]
      exact exists_cons_iff fun _ => ih hreturn.2

end ApiTypings.TypeScript.Literal
