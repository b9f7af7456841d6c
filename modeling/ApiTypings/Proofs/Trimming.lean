import ApiTypings.Proofs.Layout

/-!
# Trimmed text

Trimming takes blanks off both ends and nothing else. What is left neither starts nor ends with a
blank, so blanks that are put before it are trimmed away again.
-/

namespace ApiTypings.Text

variable {c : Char} {cs blanks : List Char}

private theorem dropBlanksEnd_cons (hc : isBlank c = false) (cs : List Char) :
    dropBlanksEnd (c :: cs) = c :: dropBlanksEnd cs := by
  rw [dropBlanksEnd]
  cases dropBlanksEnd cs <;> simp [hc]

private theorem dropBlanksEnd_blank (hc : isBlank c = true) (cs : List Char) :
    dropBlanksEnd (c :: cs) = if dropBlanksEnd cs = [] then [] else c :: dropBlanksEnd cs := by
  rw [dropBlanksEnd]
  cases dropBlanksEnd cs <;> simp [hc]

/-- The blanks that are cut off at the end. -/
theorem exists_dropBlanksEnd (cs : List Char) :
    ∃ after, cs = dropBlanksEnd cs ++ after ∧ ∀ d ∈ after, isBlank d = true := by
  induction cs with
  | nil => exact ⟨[], rfl, by simp⟩
  | cons c cs ih =>
    obtain ⟨after, hcs, hafter⟩ := ih
    by_cases hc : isBlank c = true
    · rw [dropBlanksEnd_blank hc]
      split
      · next hnil =>
        rw [hnil, List.nil_append] at hcs
        subst hcs
        exact ⟨c :: cs, rfl, List.forall_mem_cons.mpr ⟨hc, hafter⟩⟩
      · exact ⟨after, by rw [List.cons_append, ← hcs], hafter⟩
    · rw [dropBlanksEnd_cons (by simpa using hc)]
      exact ⟨after, by rw [List.cons_append, ← hcs], hafter⟩

/-- A text is its trimmed form between blanks. -/
theorem exists_trimChars (cs : List Char) : ∃ before after,
    cs = before ++ trimChars cs ++ after ∧ (∀ d ∈ before, isBlank d = true) ∧
      ∀ d ∈ after, isBlank d = true := by
  obtain ⟨after, hafter, hblank⟩ := exists_dropBlanksEnd (dropBlanks cs)
  refine ⟨cs.takeWhile isBlank, after, ?_, List.all_eq_true.mp List.all_takeWhile, hblank⟩
  rw [List.append_assoc, trimChars, ← hafter, dropBlanks, List.takeWhile_append_dropWhile]

/-- Trimming adds no characters. -/
theorem trimChars_subset (cs : List Char) : trimChars cs ⊆ cs := by
  obtain ⟨before, after, hcs, -, -⟩ := exists_trimChars cs
  intro d hd
  rw [hcs]
  simp [hd]

/-- Trimming takes away no character that is not blank. -/
theorem count_trimChars (hc : isBlank c = false) (cs : List Char) :
    (trimChars cs).count c = cs.count c := by
  obtain ⟨before, after, hcs, hbefore, hafter⟩ := exists_trimChars cs
  have hnone : ∀ {blanks : List Char}, (∀ d ∈ blanks, isBlank d = true) → blanks.count c = 0 := by
    intro blanks h
    apply List.count_eq_zero_of_not_mem
    intro hmem
    rw [h c hmem] at hc
    cases hc
  have hcount := congrArg (List.count c) hcs
  simp only [List.count_append, hnone hbefore, hnone hafter] at hcount
  omega

/-- Blanks before a text are trimmed away. -/
theorem trimChars_blanks_append (h : ∀ d ∈ blanks, isBlank d = true) (cs : List Char) :
    trimChars (blanks ++ cs) = trimChars cs := by
  unfold trimChars dropBlanks
  rw [List.dropWhile_append_of_pos h]

/-- Only blank text is trimmed to nothing. -/
theorem trimChars_eq_nil_iff : trimChars cs = [] ↔ ∀ d ∈ cs, isBlank d = true := by
  constructor
  · intro hnil
    obtain ⟨before, after, hcs, hbefore, hafter⟩ := exists_trimChars cs
    rw [hnil, List.append_nil] at hcs
    rw [hcs]
    exact List.forall_mem_append.mpr ⟨hbefore, hafter⟩
  · intro hblank
    have hnil := trimChars_blanks_append hblank []
    rwa [List.append_nil] at hnil

private theorem dropBlanks_dropBlanksEnd (h : dropBlanks cs = cs) :
    dropBlanks (dropBlanksEnd cs) = dropBlanksEnd cs := by
  cases cs with
  | nil => rfl
  | cons c cs =>
    have hc := dropBlanks_head h
    rw [dropBlanksEnd_cons hc, dropBlanks, List.dropWhile_cons, hc]
    rfl

private theorem dropBlanksEnd_idempotent (cs : List Char) :
    dropBlanksEnd (dropBlanksEnd cs) = dropBlanksEnd cs := by
  induction cs with
  | nil => rfl
  | cons c cs ih =>
    by_cases hc : isBlank c = true
    · rw [dropBlanksEnd_blank hc]
      split
      · rfl
      · next hne => rw [dropBlanksEnd_blank hc, ih, if_neg hne]
    · have hc' : isBlank c = false := by simpa using hc
      rw [dropBlanksEnd_cons hc', dropBlanksEnd_cons hc', ih]

/-- Trimming twice is trimming once. -/
theorem trimChars_idempotent (cs : List Char) : trimChars (trimChars cs) = trimChars cs := by
  unfold trimChars
  rw [dropBlanks_dropBlanksEnd (dropBlanks_idempotent cs), dropBlanksEnd_idempotent]

end ApiTypings.Text
