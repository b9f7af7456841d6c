import ApiTypings.Proofs.Naming

/-!
# Names that are made the same identifier

A name is made an identifier in two steps: `_` takes the place of every character that no plain name
holds, and then it is put before a text that starts with a digit or is a reserved word. Two names
are made the same identifier when the first step makes them equal, or equal up to the `_` of the
second. A name whose identifier holds no `_` is that identifier already.
-/

namespace ApiTypings.TypeScript

/-- A name with `_` for each character that no plain name holds; `_empty` for the empty name. -/
def plainForm (name : String) : List Char :=
  if name = "" then "_empty".toList else name.toList.map plainChar

/-- Whether a plain text must not be declared as it is. -/
def NeedsGuard (cs : List Char) : Prop :=
  cs.head?.any Char.isDigit = true ∨ String.ofList cs ∈ reservedWords

/-- One of two plain texts is the other with the `_` that guards it. -/
def Guards (cs ds : List Char) : Prop := NeedsGuard cs ∧ ds = '_' :: cs

/-- Two names that are made the same identifier. -/
def Merged (s t : String) : Prop :=
  plainForm s = plainForm t ∨ Guards (plainForm s) (plainForm t) ∨
    Guards (plainForm t) (plainForm s)

instance (cs : List Char) : Decidable (NeedsGuard cs) :=
  inferInstanceAs (Decidable (_ ∨ _))

/-- What a guard has put `_` before needs no guard. -/
theorem not_needsGuard_underscore (cs : List Char) : ¬ NeedsGuard ('_' :: cs) := by
  have hstart : ∀ w ∈ reservedWords, w.toList.head? ≠ some '_' := by decide
  rintro (hdigit | hreserved)
  · exact absurd (show '_'.isDigit = true from hdigit) (by decide)
  · exact hstart _ hreserved (by rw [String.toList_ofList]; rfl)

/-- A name is guarded by an underscore where it needs it. -/
theorem guard_eq (cs : List Char) :
    guardReserved (guardDigit cs) = if NeedsGuard cs then '_' :: cs else cs := by
  have hreserved : ∀ ds, isReserved (String.ofList ds) = true ↔ String.ofList ds ∈ reservedWords :=
    fun _ => List.contains_iff_mem
  cases cs with
  | nil => decide
  | cons c cs =>
    by_cases hdigit : c.isDigit = true
    · have hword : ¬ isReserved (String.ofList ('_' :: c :: cs)) = true := fun h =>
        not_needsGuard_underscore _ (.inr ((hreserved _).mp h))
      rw [guardDigit, if_pos hdigit, guardReserved, if_neg hword, if_pos (.inl hdigit)]
    · have hneeds : NeedsGuard (c :: cs) ↔ String.ofList (c :: cs) ∈ reservedWords := by
        simp [NeedsGuard, hdigit]
      rw [guardDigit, if_neg hdigit, guardReserved]
      simp only [hneeds, hreserved]

/-- An identifier is the plain form of the name, guarded if it has to be. -/
theorem toList_identifier (name : String) :
    (identifier name).toList =
      if NeedsGuard (plainForm name) then '_' :: plainForm name else plainForm name := by
  rw [← guard_eq, identifier, plainForm]
  split
  · decide
  · rw [String.toList_ofList]

private theorem plainForm_ne_nil (name : String) : plainForm name ≠ [] := by
  rw [plainForm]
  split
  · decide
  · next hne => exact fun h => hne (String.toList_eq_nil_iff.mp (List.map_eq_nil_iff.mp h))

/-- Plain names start with no digit. -/
theorem isDigit_of_isPlainStart {c : Char} (h : isPlainStart c = true) : c.isDigit = false := by
  rw [Bool.eq_false_iff]
  intro hdigit
  obtain ⟨hlow, hhigh⟩ := Char.isDigit_iff_toNat.mp hdigit
  change c.toNat ≤ 57 at hhigh
  have hrange : ∀ {low high : UInt32}, (decide (c.val ≥ low) && decide (c.val ≤ high)) = true →
      low.toNat ≤ c.toNat := fun hc => of_decide_eq_true (Bool.and_eq_true_iff.mp hc).1
  rw [isPlainStart, Bool.or_eq_true, Bool.or_eq_true, beq_iff_eq, beq_iff_eq] at h
  rcases h with (halpha | rfl) | rfl
  · rcases Bool.or_eq_true_iff.mp halpha with hupper | hlower
    · have hletter : 65 ≤ c.toNat := (of_decide_eq_true hupper).1
      omega
    · have hletter : 97 ≤ c.toNat := hrange hlower
      omega
  · exact absurd hhigh (by decide)
  · exact absurd hlow (by decide)

/-- A plain name may start with any of its characters but a digit. -/
theorem isPlainStart_iff {c : Char} :
    isPlainStart c = true ↔ isPlainChar c = true ∧ c.isDigit = false := by
  constructor
  · intro h
    refine ⟨?_, isDigit_of_isPlainStart h⟩
    rw [isPlainStart, Bool.or_assoc, Bool.or_eq_true] at h
    rw [isPlainChar, Char.isAlphanum, Bool.or_assoc, Bool.or_eq_true, Bool.or_eq_true]
    exact h.imp_left .inl
  · rintro ⟨h, hdigit⟩
    rw [isPlainChar, Char.isAlphanum, hdigit, Bool.or_false] at h
    exact h

/-- What a name is made is a plain name. -/
theorem isPlainName_identifier (name : String) : isPlainName (identifier name).toList = true := by
  have hall : ∀ c ∈ (identifier name).toList, isPlainChar c = true := fun c hc =>
    isPlainChar_of_mem_identifier hc
  rw [toList_identifier] at hall ⊢
  split at hall
  · next hguard =>
    rw [if_pos hguard, isPlainName, List.all_eq_true.mpr hall]
    decide
  · next hbare =>
    rw [if_neg hbare]
    cases hcs : plainForm name with
    | nil => exact absurd hcs (plainForm_ne_nil name)
    | cons c cs =>
      rw [hcs] at hall hbare
      have hdigit : c.isDigit = false := Bool.eq_false_iff.mpr fun hc => hbare (.inl hc)
      rw [isPlainName, List.all_eq_true.mpr hall, Bool.and_true]
      exact isPlainStart_iff.mpr ⟨hall c List.mem_cons_self, hdigit⟩

/-- Names are made the same identifier when they are merged. -/
theorem identifier_eq_identifier_iff {s t : String} :
    identifier s = identifier t ↔ Merged s t := by
  rw [← String.toList_inj, toList_identifier, toList_identifier, Merged, Guards, Guards]
  generalize plainForm s = cs
  generalize plainForm t = ds
  by_cases hs : NeedsGuard cs <;> by_cases ht : NeedsGuard ds
  · have hne : ∀ es, ds ≠ '_' :: es ∧ cs ≠ '_' :: es := fun es =>
      ⟨fun h => not_needsGuard_underscore es (h ▸ ht),
        fun h => not_needsGuard_underscore es (h ▸ hs)⟩
    simp [hs, ht, hne]
  · have hne : cs ≠ ds := fun h => ht (h ▸ hs)
    simp [hs, ht, hne, eq_comm]
  · have hne : cs ≠ ds := fun h => hs (h ▸ ht)
    simp [hs, ht, hne]
  · simp [hs, ht]

/-- A name whose identifier holds no `_` is that identifier. -/
theorem eq_of_identifier_eq {name w : String} (hw : '_' ∉ w.toList) (h : identifier name = w) :
    name = w := by
  have hplain : plainForm name = w.toList := by
    rw [← h, toList_identifier] at hw ⊢
    split at hw
    · exact absurd (List.mem_cons_self ..) hw
    · next hbare => rw [if_neg hbare]
  rw [← hplain, plainForm] at hw
  split at hw
  · exact absurd (by decide) hw
  · next hne =>
    rw [plainForm, if_neg hne] at hplain
    have hkept : ∀ c ∈ name.toList, plainChar c = c := by
      intro c hc
      rw [plainChar]
      split
      · rfl
      · next hother =>
        refine absurd (List.mem_map.mpr ⟨c, hc, ?_⟩) hw
        rw [plainChar, if_neg hother]
    rwa [List.map_congr_left hkept, List.map_id', String.toList_inj] at hplain

/-- An identifier without underscores is made from itself only. -/
theorem identifier_eq_iff {name w : String} (hw : '_' ∉ w.toList) (hself : identifier w = w) :
    identifier name = w ↔ name = w :=
  ⟨eq_of_identifier_eq hw, fun h => h ▸ hself⟩

end ApiTypings.TypeScript
