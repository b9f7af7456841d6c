import ApiTypings.Proofs.TypeScript.Identifier

/-!
# Safe names

A safe name may be declared as it is. Making a name an identifier makes it safe, whatever it was,
and changes nothing about a name that is safe already.
-/

namespace ApiTypings.TypeScript

/-- A name of ASCII letters, digits, `_` and `$` that starts with no digit and is no reserved
word. -/
structure IsSafe (name : String) : Prop where
  ne_empty : name ≠ ""
  chars : ∀ c ∈ name.toList, c.isAlphanum = true ∨ c = '_' ∨ c = '$'
  start : ∀ c, name.toList.head? = some c → c.isDigit = false
  free : name ∉ reservedWords

private theorem isPlainChar_iff {c : Char} :
    isPlainChar c = true ↔ c.isAlphanum = true ∨ c = '_' ∨ c = '$' := by
  rw [isPlainChar, Bool.or_eq_true, Bool.or_eq_true, beq_iff_eq, beq_iff_eq, or_assoc]

private theorem isPlainName_iff {cs : List Char} : isPlainName cs = true ↔
    cs ≠ [] ∧ (∀ c ∈ cs, isPlainChar c = true) ∧ ∀ c, cs.head? = some c → c.isDigit = false := by
  cases cs with
  | nil => simp [isPlainName]
  | cons c cs =>
    rw [isPlainName, Bool.and_eq_true, List.all_eq_true, isPlainStart_iff]
    simp only [List.head?_cons, Option.some.injEq, forall_eq']
    constructor
    · rintro ⟨⟨-, hdigit⟩, hchars⟩
      exact ⟨List.cons_ne_nil _ _, hchars, hdigit⟩
    · rintro ⟨-, hchars, hdigit⟩
      exact ⟨⟨hchars c List.mem_cons_self, hdigit⟩, hchars⟩

/-- A name is safe when it is plain and not reserved. -/
theorem isSafe_iff {name : String} :
    IsSafe name ↔ isPlainName name.toList = true ∧ name ∉ reservedWords := by
  rw [isPlainName_iff]
  simp only [isPlainChar_iff]
  constructor
  · rintro ⟨hempty, hchars, hstart, hfree⟩
    exact ⟨⟨fun h => hempty (String.toList_eq_nil_iff.mp h), hchars, hstart⟩, hfree⟩
  · rintro ⟨⟨hempty, hchars, hstart⟩, hfree⟩
    exact ⟨fun h => hempty (String.toList_eq_nil_iff.mpr h), hchars, hstart, hfree⟩

/-- Identifiers are safe. -/
theorem isSafe_identifier (name : String) : IsSafe (identifier name) :=
  isSafe_iff.mpr ⟨isPlainName_identifier name, identifier_not_mem_reservedWords name⟩

/-- A safe name is its own plain form and needs no guard. -/
theorem IsSafe.identifier_eq {name : String} (h : IsSafe name) : identifier name = name := by
  have hplain : plainForm name = name.toList := by
    rw [plainForm, if_neg h.ne_empty]
    have hkept : ∀ c ∈ name.toList, plainChar c = c := fun c hc =>
      if_pos (isPlainChar_iff.mpr (h.chars c hc))
    rw [List.map_congr_left hkept, List.map_id']
  have hbare : ¬ NeedsGuard name.toList := by
    rintro (hdigit | hreserved)
    · obtain ⟨c, hc, hdigit⟩ := Option.any_eq_true _ _ |>.mp hdigit
      rw [h.start c hc] at hdigit
      cases hdigit
    · rw [String.ofList_toList] at hreserved
      exact h.free hreserved
  rw [← String.toList_inj, toList_identifier, hplain, if_neg hbare]

/-- Exactly the safe names are identifiers as they are. -/
theorem identifier_eq_self_iff {name : String} : identifier name = name ↔ IsSafe name :=
  ⟨fun h => h ▸ isSafe_identifier name, IsSafe.identifier_eq⟩

/-- Identifiers need no quotes. -/
theorem needsQuotes_identifier (name : String) : needsQuotes (identifier name) = false := by
  rw [needsQuotes, isPlainName_identifier]
  rfl

end ApiTypings.TypeScript
