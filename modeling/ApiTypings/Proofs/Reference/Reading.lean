import ApiTypings.Reference.Grammar

/-!
# Equations of the reference reader

Each reader returns its rest together with a proof that the rest is shorter. The equations below
drop that proof and say, case by case, what a reader makes of a text and what it leaves. Blanks,
digits and name characters are cut off as far as they go, so what follows a token decides only
through its first character.
-/

namespace ApiTypings.Reference

open Text Grammar

/-- What a reader makes of a text and what it leaves, without the proof that the rest is
shorter. -/
def leaving {α : Type} {cs : List Char} (read : Except Stop (α × Remainder cs)) :
    Except Stop (α × List Char) :=
  read.map fun x => (x.1, x.2.1)

/-- What is read leaves the rest. -/
@[simp] theorem leaving_ok {α : Type} {cs : List Char} (a : α) (rest : Remainder cs) :
    leaving (.ok (a, rest)) = .ok (a, rest.1) := rfl

/-- Nothing is left behind a stop. -/
@[simp] theorem leaving_error {α : Type} {cs : List Char} (stop : Stop) :
    leaving (.error stop : Except Stop (α × Remainder cs)) = .error stop := rfl

/-- What leaves a rest has been read. -/
theorem eq_ok_of_leaving {α : Type} {cs rest : List Char} {a : α}
    {read : Except Stop (α × Remainder cs)} (h : leaving read = .ok (a, rest)) :
    ∃ hlt, read = .ok (a, ⟨rest, hlt⟩) := by
  cases read with
  | error stop => cases h
  | ok x =>
    cases h
    exact ⟨x.2.2, rfl⟩

/-! ## Blanks -/

/-- An empty text is blank. -/
theorem blanks_nil : Blanks [] := nofun

/-- Dropped blanks stood in front. -/
theorem exists_blanks (cs : List Char) : ∃ blanks, Blanks blanks ∧ cs = blanks ++ dropBlanks cs :=
  ⟨cs.takeWhile isBlank, List.all_eq_true.mp List.all_takeWhile,
    List.takeWhile_append_dropWhile.symm⟩

/-- Blanks in front are dropped. -/
theorem dropBlanks_append {blanks : List Char} (h : Blanks blanks) (cs : List Char) :
    dropBlanks (blanks ++ cs) = dropBlanks cs :=
  List.dropWhile_append_of_pos h

/-- Nothing is dropped in front of another character. -/
theorem dropBlanks_cons {c : Char} (h : isBlank c = false) (cs : List Char) :
    dropBlanks (c :: cs) = c :: cs := by
  simp only [dropBlanks, List.dropWhile_cons, h, Bool.false_eq_true, if_false]

/-- A character that is not blank ends a run of blanks. -/
theorem dropBlanks_append_cons {blanks : List Char} {c : Char} (h : Blanks blanks)
    (hc : isBlank c = false) (cs : List Char) : dropBlanks (blanks ++ c :: cs) = c :: cs := by
  rw [dropBlanks_append h, dropBlanks_cons hc]

/-- Name characters are ASCII: `+`, `_`, digits, capital and small letters. -/
theorem toNat_of_isNameChar {c : Char} (h : isNameChar c = true) :
    c.toNat = 43 ∨ c.toNat = 95 ∨ (48 ≤ c.toNat ∧ c.toNat ≤ 57) ∨
      (65 ≤ c.toNat ∧ c.toNat ≤ 90) ∨ (97 ≤ c.toNat ∧ c.toNat ≤ 122) := by
  have hrange : ∀ {low high : UInt32}, (decide (c.val ≥ low) && decide (c.val ≤ high)) = true →
      low.toNat ≤ c.toNat ∧ c.toNat ≤ high.toNat := fun hc =>
    (Bool.and_eq_true_iff.mp hc).imp of_decide_eq_true of_decide_eq_true
  rw [isNameChar, Bool.or_eq_true, Bool.or_eq_true, beq_iff_eq, beq_iff_eq, Char.isAlphanum,
    Bool.or_eq_true] at h
  rcases h with ((h | h) | rfl) | rfl
  · rcases Bool.or_eq_true_iff.mp h with h | h
    · exact .inr (.inr (.inr (.inl (of_decide_eq_true h))))
    · exact .inr (.inr (.inr (.inr (hrange h))))
  · exact .inr (.inr (.inl (hrange h)))
  · exact .inr (.inl rfl)
  · exact .inl rfl

/-- No character of a name is blank. -/
theorem isBlank_of_isNameChar {c : Char} (h : isNameChar c = true) : isBlank c = false := by
  have hn := toNat_of_isNameChar h
  simp only [isBlank]
  generalize c.toNat = n at hn ⊢
  simp only [Bool.or_eq_false_iff, Bool.and_eq_false_iff, decide_eq_false_iff_not,
    beq_eq_false_iff_ne]
  omega

/-- Digits may stand in names. -/
theorem isNameChar_of_isDigit {c : Char} (h : c.isDigit = true) : isNameChar c = true := by
  simp only [isNameChar, Char.isAlphanum, h, Bool.or_true, Bool.true_or]

/-! ## Runs of characters -/

/-- What follows a run of characters does not go on with it. -/
def Stops (p : Char → Bool) (rest : List Char) : Prop := ∀ c ∈ rest.head?, p c = false

/-- A run is taken up to where it stops. -/
theorem takeWhile_append_stops {p : Char → Bool} {run rest : List Char} (h : ∀ c ∈ run, p c = true)
    (hr : Stops p rest) : (run ++ rest).takeWhile p = run := by
  rw [List.takeWhile_append_of_pos h]
  cases rest with
  | nil => simp
  | cons c rest => simp [hr c rfl]

/-- A run is dropped up to where it stops. -/
theorem dropWhile_append_stops {p : Char → Bool} {run rest : List Char} (h : ∀ c ∈ run, p c = true)
    (hr : Stops p rest) : (run ++ rest).dropWhile p = rest := by
  rw [List.dropWhile_append_of_pos h]
  cases rest with
  | nil => rfl
  | cons c rest => simp [hr c rfl]

/-- A run of digits is read to its end, if its number is a position. -/
theorem readPosition_digits {digits rest : List Char} (hne : digits ≠ [])
    (hd : digits.all Char.isDigit = true) (hb : decimal digits < positionBound)
    (hr : Stops Char.isDigit rest) :
    readPosition (digits ++ rest) = .ok (decimal digits, rest) := by
  have hall := List.all_eq_true.mp hd
  simp only [readPosition, takeWhile_append_stops hall hr, dropWhile_append_stops hall hr]
  rw [if_pos ⟨hne, hb⟩]

/-- A position is read from its digits. -/
theorem exists_digits_of_readPosition {cs rest : List Char} {n : Nat}
    (h : readPosition cs = .ok (n, rest)) :
    ∃ digits, digits ≠ [] ∧ digits.all Char.isDigit = true ∧ decimal digits < positionBound ∧
      n = decimal digits ∧ cs = digits ++ rest := by
  simp only [readPosition] at h
  split at h
  · next hp =>
    cases h
    exact ⟨cs.takeWhile Char.isDigit, hp.1, List.all_takeWhile, hp.2, rfl,
      List.takeWhile_append_dropWhile.symm⟩
  · cases h

/-! ## Names -/

/-- A segment has characters of names only. -/
theorem isNameChar_of_isSegment {segment : List Char} (h : isSegment segment = true) :
    ∀ c ∈ segment, isNameChar c = true := by
  cases segment with
  | nil => cases h
  | cons d ds =>
    simp only [isSegment, Bool.and_eq_true, List.all_eq_true] at h
    intro c hc
    rcases List.mem_cons.mp hc with rfl | hc
    · exact h.1.1
    · exact h.2 c hc

/-- A segment is not empty. -/
theorem ne_nil_of_isSegment {segment : List Char} (h : isSegment segment = true) :
    segment ≠ [] := by
  rintro rfl
  cases h

/-- A name that does not start with a segment is not read. -/
theorem readName_error {cs : List Char} (h : ¬ isSegment (cs.takeWhile isNameChar) = true) :
    readName cs = .error ⟨.typeName, cs.dropWhile isNameChar⟩ := by
  rw [readName, dif_neg h]

/-- After a segment, a dot asks for another one. -/
theorem leaving_readName_dot {cs more : List Char}
    (h : isSegment (cs.takeWhile isNameChar) = true)
    (hd : cs.dropWhile isNameChar = '.' :: more) :
    leaving (readName cs) = (leaving (readName more)).map
      fun x => (cs.takeWhile isNameChar :: x.1, x.2) := by
  rw [readName, dif_pos h]
  split
  · next more' he =>
    obtain rfl : more = more' := (List.cons.inj (hd.symm.trans he)).2
    cases readName more <;> rfl
  · next hne => exact absurd hd (hne more)

/-- A segment without a dot behind it ends the name. -/
theorem leaving_readName_last {cs : List Char}
    (h : isSegment (cs.takeWhile isNameChar) = true)
    (hd : ∀ more, cs.dropWhile isNameChar ≠ '.' :: more) :
    leaving (readName cs) = .ok ([cs.takeWhile isNameChar], cs.dropWhile isNameChar) := by
  rw [readName, dif_pos h]
  split
  · next more' he => exact absurd he (hd more')
  · rfl

/-! ## Atoms, arguments and references -/

section Atoms

variable {cs digits inside : List Char} {segments : List (List Char)} {rest : List Char}

/-- An atom with a mark in front is a position. -/
theorem leaving_readAtom_position (hb : dropBlanks cs = '!' :: digits) :
    leaving (readAtom cs) = (readPosition digits).map fun x => (param x.1, x.2) := by
  rw [readAtom]
  split
  · next digits' he =>
    obtain rfl : digits = digits' := (List.cons.inj (hb.symm.trans he)).2
    split
    · next stop hp => rw [hp]; rfl
    · next n after hp => simp only [hp]; rfl
  · next hne => exact absurd hb (hne digits)

/-- An atom without a mark in front needs a name. -/
theorem leaving_readAtom_error {stop : Stop} (hb : ∀ digits, dropBlanks cs ≠ '!' :: digits)
    (hn : leaving (readName (dropBlanks cs)) = .error stop) :
    leaving (readAtom cs) = .error stop := by
  rw [readAtom]
  split
  · next digits he => exact absurd he (hb digits)
  · split
    · next stop' hp =>
      rw [hp] at hn
      cases hn
      rfl
    · next segments' after hp =>
      rw [hp] at hn
      cases hn

/-- A name that no `<` follows stands alone; the blanks after it are gone. -/
theorem leaving_readAtom_simple (hb : ∀ digits, dropBlanks cs ≠ '!' :: digits)
    (hn : leaving (readName (dropBlanks cs)) = .ok (segments, rest))
    (ha : ∀ inside, dropBlanks rest ≠ '<' :: inside) :
    leaving (readAtom cs) = .ok (ofSegments segments [], dropBlanks rest) := by
  obtain ⟨hlt, hn⟩ := eq_ok_of_leaving hn
  rw [readAtom]
  split
  · next digits he => exact absurd he (hb digits)
  · split
    · next stop hp =>
      rw [hn] at hp
      cases hp
    · next segments' after hp =>
      rw [hn] at hp
      cases hp
      split
      · next inside he => exact absurd he (ha inside)
      · rfl

/-- A name that `<` follows has the arguments read after it. -/
theorem leaving_readAtom_generic (hb : ∀ digits, dropBlanks cs ≠ '!' :: digits)
    (hn : leaving (readName (dropBlanks cs)) = .ok (segments, rest))
    (ha : dropBlanks rest = '<' :: inside) :
    leaving (readAtom cs) = (leaving (readArguments inside)).map
      fun x => (ofSegments segments x.1, x.2) := by
  obtain ⟨hlt, hn⟩ := eq_ok_of_leaving hn
  rw [readAtom]
  split
  · next digits he => exact absurd he (hb digits)
  · split
    · next stop hp =>
      rw [hn] at hp
      cases hp
    · next segments' after hp =>
      rw [hn] at hp
      cases hp
      split
      · next inside' he =>
        obtain rfl : inside = inside' := (List.cons.inj (ha.symm.trans he)).2
        cases readArguments inside <;> rfl
      · next hne => exact absurd ha (hne inside)

/-- A reference is an atom with its suffixes. -/
theorem leaving_readReference (cs : List Char) :
    leaving (readReference cs) =
      (leaving (readAtom cs)).map fun x => readSuffixes x.1 x.2 := by
  rw [readReference]
  cases readAtom cs <;> rfl

end Atoms

section Arguments

variable {cs rest more : List Char} {r : Reference}

/-- Arguments stop where the first of them does. -/
theorem leaving_readArguments_error {stop : Stop}
    (h : leaving (readReference cs) = .error stop) :
    leaving (readArguments cs) = .error stop := by
  rw [readArguments]
  split
  · next stop' hp =>
    rw [hp] at h
    cases h
    rfl
  · next arg after hp =>
    rw [hp] at h
    cases h

/-- Behind a comma more arguments are read. -/
theorem leaving_readArguments_more (h : leaving (readReference cs) = .ok (r, rest))
    (hb : dropBlanks rest = ',' :: more) :
    leaving (readArguments cs) = (leaving (readArguments more)).map
      fun x => (r :: x.1, x.2) := by
  obtain ⟨hlt, h⟩ := eq_ok_of_leaving h
  rw [readArguments]
  split
  · next stop hp =>
    rw [h] at hp
    cases hp
  · next arg after hp =>
    rw [h] at hp
    cases hp
    split
    · next more' he =>
      obtain rfl : more = more' := (List.cons.inj (hb.symm.trans he)).2
      cases readArguments more <;> rfl
    · next he => rw [hb] at he; cases he
    · next hne _ => exact absurd hb (hne more)

/-- A closing mark ends the arguments. -/
theorem leaving_readArguments_last (h : leaving (readReference cs) = .ok (r, rest))
    (hb : dropBlanks rest = '>' :: more) :
    leaving (readArguments cs) = .ok ([r], more) := by
  obtain ⟨hlt, h⟩ := eq_ok_of_leaving h
  rw [readArguments]
  split
  · next stop hp =>
    rw [h] at hp
    cases hp
  · next arg after hp =>
    rw [h] at hp
    cases hp
    split
    · next he => rw [hb] at he; cases he
    · next more' he =>
      obtain rfl : more = more' := (List.cons.inj (hb.symm.trans he)).2
      rfl
    · next hne => exact absurd hb (hne more)

/-- Arguments are followed by a comma or a closing mark. -/
theorem leaving_readArguments_fault (h : leaving (readReference cs) = .ok (r, rest))
    (hmore : ∀ more, dropBlanks rest ≠ ',' :: more)
    (hlast : ∀ more, dropBlanks rest ≠ '>' :: more) :
    leaving (readArguments cs) = .error ⟨.argumentList, dropBlanks rest⟩ := by
  obtain ⟨hlt, h⟩ := eq_ok_of_leaving h
  rw [readArguments]
  split
  · next stop hp =>
    rw [h] at hp
    cases hp
  · next arg after hp =>
    rw [h] at hp
    cases hp
    split
    · next more he => exact absurd he (hmore more)
    · next more he => exact absurd he (hlast more)
    · rfl

end Arguments

/-! ## Suffixes -/

private theorem readSuffixes_cons_blank (r : Reference) {c : Char} (h : isBlank c = true)
    (cs : List Char) : readSuffixes r (c :: cs) = readSuffixes r cs := by
  rw [readSuffixes.eq_def]
  split
  · next he => cases he; cases h
  · next he => cases he; cases h
  · next he => cases he; exact if_pos h
  · next he => cases he

/-- Blanks in front of suffixes are skipped. -/
theorem readSuffixes_blanks (r : Reference) {blanks : List Char} (h : Blanks blanks)
    (cs : List Char) : readSuffixes r (blanks ++ cs) = readSuffixes r cs := by
  induction blanks with
  | nil => rfl
  | cons c blanks ih =>
    rw [List.cons_append, readSuffixes_cons_blank r (h c (List.mem_cons_self ..))]
    exact ih fun d hd => h d (List.mem_cons_of_mem _ hd)

/-- Suffixes are read the same whether or not the blanks before them are gone. -/
theorem readSuffixes_dropBlanks (r : Reference) (cs : List Char) :
    readSuffixes r (dropBlanks cs) = readSuffixes r cs := by
  obtain ⟨blanks, hb, hcs⟩ := exists_blanks cs
  rw [← readSuffixes_blanks r hb, ← hcs]

/-- What begins neither with a blank nor with a suffix has no suffixes. -/
theorem readSuffixes_stop (r : Reference) {cs : List Char}
    (hblank : ∀ c more, cs = c :: more → isBlank c = false)
    (hbrackets : ∀ more, cs ≠ '[' :: ']' :: more) (hquestion : ∀ more, cs ≠ '?' :: more) :
    readSuffixes r cs = (r, cs) := by
  rw [readSuffixes.eq_def]
  split
  · exact absurd rfl (hbrackets _)
  · exact absurd rfl (hquestion _)
  · rw [hblank _ _ rfl]
    rfl
  · rfl

/-- A character that neither is blank nor begins a suffix ends the suffixes. -/
theorem readSuffixes_end (r : Reference) {c : Char} (hc : isBlank c = false) (ha : c ≠ '[')
    (hn : c ≠ '?') (cs : List Char) : readSuffixes r (c :: cs) = (r, c :: cs) := by
  refine readSuffixes_stop r ?_ ?_ ?_
  · rintro d more ⟨⟩
    exact hc
  · rintro more ⟨⟩
    exact ha rfl
  · rintro more ⟨⟩
    exact hn rfl

end ApiTypings.Reference
