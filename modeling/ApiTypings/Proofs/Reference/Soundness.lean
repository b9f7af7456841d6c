import ApiTypings.Proofs.Reference.Reading

/-!
# Reading finds a derivation

What a reader consumes derives in the grammar the reference that it returns, up to the blanks
that it consumes with it. Each reader is sound when the readers that it calls are, and the
induction is on the length of the text.
-/

namespace ApiTypings.Reference

open Text Grammar

private theorem exists_name_of_readName {cs rest : List Char} {segments : List (List Char)}
    (h : leaving (readName cs) = .ok (segments, rest)) :
    ∃ name, Name name segments ∧ cs = name ++ rest := by
  induction hlen : cs.length using Nat.strongRecOn generalizing cs segments with
  | ind n ih =>
    have hsplit : cs.takeWhile isNameChar ++ cs.dropWhile isNameChar = cs :=
      List.takeWhile_append_dropWhile
    by_cases hs : isSegment (cs.takeWhile isNameChar) = true
    · by_cases hd : ∃ more, cs.dropWhile isNameChar = '.' :: more
      · obtain ⟨more, hd⟩ := hd
        rw [leaving_readName_dot hs hd] at h
        cases hm : leaving (readName more) with
        | error stop =>
          rw [hm] at h
          cases h
        | ok x =>
          rw [hm] at h
          cases h
          have hlt : more.length < n := by
            have := congrArg List.length hsplit
            rw [hd, List.length_append, List.length_cons] at this
            omega
          obtain ⟨name, hname, rfl⟩ := ih more.length hlt hm rfl
          refine ⟨cs.takeWhile isNameChar ++ '.' :: name, .more hs hname, ?_⟩
          rw [List.append_assoc, List.cons_append, ← hd, hsplit]
      · rw [leaving_readName_last hs fun more hm => hd ⟨more, hm⟩] at h
        cases h
        exact ⟨_, .last hs, hsplit.symm⟩
    · rw [readName_error hs] at h
      cases h

/-- Suffixes are applied to what stands before them, blanks or not. -/
theorem exists_written_of_readSuffixes {cs blanks : List Char} {r : Reference}
    (h : Written cs r) (hb : Blanks blanks) (rest : List Char) :
    ∃ used gap, Written used (readSuffixes r rest).1 ∧ Blanks gap ∧
      cs ++ blanks ++ rest = used ++ gap ++ (readSuffixes r rest).2 := by
  fun_induction readSuffixes r rest generalizing cs blanks with
  | case1 r rest ih =>
    obtain ⟨used, gap, hw, hg, he⟩ := ih (.array h hb) blanks_nil
    refine ⟨used, gap, hw, hg, ?_⟩
    rw [← he]
    simp
  | case2 r rest ih =>
    obtain ⟨used, gap, hw, hg, he⟩ := ih (.nullable h hb) blanks_nil
    refine ⟨used, gap, hw, hg, ?_⟩
    rw [← he]
    simp
  | case3 r c rest _ _ hc ih =>
    have hb' : Blanks (blanks ++ [c]) := by
      intro d hd
      rcases List.mem_append.mp hd with hd | hd
      · exact hb d hd
      · rw [List.mem_singleton.mp hd]
        exact hc
    obtain ⟨used, gap, hw, hg, he⟩ := ih h hb'
    refine ⟨used, gap, hw, hg, ?_⟩
    rw [← he]
    simp
  | case4 r c rest => exact ⟨cs, blanks, h, hb, rfl⟩
  | case5 r => exact ⟨cs, blanks, h, hb, rfl⟩

/-- What is read as a reference derives it, up to blanks that are read with it. -/
def DerivesReference (cs : List Char) : Prop :=
  ∀ r rest, leaving (readReference cs) = .ok (r, rest) →
    ∃ used gap, Written used r ∧ Blanks gap ∧ cs = used ++ gap ++ rest

/-- What is read as an atom derives it, up to blanks that are read with it. -/
def DerivesAtom (cs : List Char) : Prop :=
  ∀ r rest, leaving (readAtom cs) = .ok (r, rest) →
    ∃ used gap, Atom used r ∧ Blanks gap ∧ cs = used ++ gap ++ rest

/-- What is read as arguments derives them. -/
def DerivesArguments (cs : List Char) : Prop :=
  ∀ args rest, leaving (readArguments cs) = .ok (args, rest) →
    ∃ used, Arguments used args ∧ cs = used ++ rest

private theorem DerivesReference.of_atom {cs : List Char} (h : DerivesAtom cs) :
    DerivesReference cs := by
  intro r rest hread
  rw [leaving_readReference] at hread
  cases ha : leaving (readAtom cs) with
  | error stop =>
    rw [ha] at hread
    cases hread
  | ok x =>
    rw [ha] at hread
    obtain ⟨used, gap, hatom, hg, rfl⟩ := h x.1 x.2 ha
    have hsuffixes : readSuffixes x.1 x.2 = (r, rest) := Except.ok.inj hread
    have hw := exists_written_of_readSuffixes (.atom hatom) hg x.2
    rw [hsuffixes] at hw
    exact hw

private theorem DerivesAtom.of_position {cs digits : List Char}
    (hbang : dropBlanks cs = '!' :: digits) : DerivesAtom cs := by
  intro r rest hread
  rw [leaving_readAtom_position hbang] at hread
  cases hp : readPosition digits with
  | error stop =>
    rw [hp] at hread
    cases hread
  | ok x =>
    rw [hp] at hread
    cases hread
    obtain ⟨blanks, hb, hcs⟩ := exists_blanks cs
    obtain ⟨ds, hne, hd, hlt, hn, rfl⟩ := exists_digits_of_readPosition hp
    rw [hn]
    refine ⟨blanks ++ '!' :: ds, [], .param hb hne hd hlt, nofun, ?_⟩
    rw [hcs, hbang]
    simp

section Names

variable {cs after : List Char} {segments : List (List Char)}
  (hbang : ∀ digits, dropBlanks cs ≠ '!' :: digits)
  (hn : leaving (readName (dropBlanks cs)) = .ok (segments, after))

include hbang hn

private theorem DerivesAtom.of_simple (hargs : ∀ inside, dropBlanks after ≠ '<' :: inside) :
    DerivesAtom cs := by
  intro r rest hread
  rw [leaving_readAtom_simple hbang hn hargs] at hread
  cases hread
  obtain ⟨blanks, hb, hcs⟩ := exists_blanks cs
  obtain ⟨name, hname, hstart⟩ := exists_name_of_readName hn
  obtain ⟨gap, hg, hafter⟩ := exists_blanks after
  refine ⟨blanks ++ name, gap, .simple hb hname, hg, ?_⟩
  rw [hcs, hstart, List.append_assoc, List.append_assoc, ← hafter]

private theorem DerivesAtom.of_generic {inside : List Char}
    (hargs : dropBlanks after = '<' :: inside)
    (ih : inside.length < cs.length → DerivesArguments inside) : DerivesAtom cs := by
  intro r rest hread
  rw [leaving_readAtom_generic hbang hn hargs] at hread
  cases ha : leaving (readArguments inside) with
  | error stop =>
    rw [ha] at hread
    cases hread
  | ok y =>
    rw [ha] at hread
    cases hread
    obtain ⟨blanks, hb, hcs⟩ := exists_blanks cs
    obtain ⟨name, hname, hstart⟩ := exists_name_of_readName hn
    obtain ⟨gap, hg, hafter⟩ := exists_blanks after
    rw [hargs] at hafter
    have hwhole : cs = blanks ++ name ++ gap ++ '<' :: inside := by
      rw [hcs, hstart, hafter]
      simp
    have hlt : inside.length < cs.length := by
      rw [hwhole]
      simp
      omega
    obtain ⟨used, harguments, hinside⟩ := ih hlt y.1 y.2 ha
    refine ⟨blanks ++ name ++ gap ++ '<' :: used, [], .generic hb hname hg harguments, nofun, ?_⟩
    rw [hwhole, hinside]
    simp

end Names

private theorem DerivesAtom.of_arguments {cs : List Char}
    (ih : ∀ inside : List Char, inside.length < cs.length → DerivesArguments inside) :
    DerivesAtom cs := by
  -- What stands behind the blanks tells a position from a name, and what stands behind the name
  -- whether there are arguments.
  by_cases hbang : ∃ digits, dropBlanks cs = '!' :: digits
  · obtain ⟨digits, hbang⟩ := hbang
    exact .of_position hbang
  · rw [not_exists] at hbang
    cases hn : leaving (readName (dropBlanks cs)) with
    | error stop =>
      intro r rest hread
      rw [leaving_readAtom_error hbang hn] at hread
      cases hread
    | ok x =>
      by_cases hargs : ∃ inside, dropBlanks x.2 = '<' :: inside
      · obtain ⟨inside, hargs⟩ := hargs
        exact .of_generic hbang hn hargs (ih inside)
      · rw [not_exists] at hargs
        exact .of_simple hbang hn hargs

private theorem DerivesArguments.of_reference {cs : List Char} (h : DerivesReference cs)
    (ih : ∀ more : List Char, more.length < cs.length → DerivesArguments more) :
    DerivesArguments cs := by
  intro args rest hread
  cases hr : leaving (readReference cs) with
  | error stop =>
    rw [leaving_readArguments_error hr] at hread
    cases hread
  | ok x =>
    obtain ⟨used, gap, hw, hg, hcs⟩ := h x.1 x.2 hr
    obtain ⟨gap', hg', hafter⟩ := exists_blanks x.2
    have hgaps : Blanks (gap ++ gap') := by
      intro c hc
      exact (List.mem_append.mp hc).elim (hg c) (hg' c)
    by_cases hmore : ∃ more, dropBlanks x.2 = ',' :: more
    · obtain ⟨more, hmore⟩ := hmore
      rw [leaving_readArguments_more hr hmore] at hread
      cases ha : leaving (readArguments more) with
      | error stop =>
        rw [ha] at hread
        cases hread
      | ok y =>
        rw [ha] at hread
        cases hread
        rw [hmore] at hafter
        have hwhole : cs = used ++ (gap ++ gap') ++ ',' :: more := by
          rw [hcs, hafter]
          simp
        have hlt : more.length < cs.length := by
          rw [hwhole]
          simp
          omega
        obtain ⟨others, harguments, hothers⟩ := ih more hlt y.1 y.2 ha
        refine ⟨used ++ (gap ++ gap') ++ ',' :: others, .more hw hgaps harguments, ?_⟩
        rw [hwhole, hothers]
        simp
    · have hmore' : ∀ more, dropBlanks x.2 ≠ ',' :: more := fun more he => hmore ⟨more, he⟩
      by_cases hlast : ∃ more, dropBlanks x.2 = '>' :: more
      · obtain ⟨more, hlast⟩ := hlast
        rw [leaving_readArguments_last hr hlast] at hread
        cases hread
        rw [hlast] at hafter
        refine ⟨used ++ (gap ++ gap') ++ ['>'], .last hw hgaps, ?_⟩
        rw [hcs, hafter]
        simp
      · rw [leaving_readArguments_fault hr hmore' fun more he => hlast ⟨more, he⟩] at hread
        cases hread

/-- Arguments that are read derive from the grammar. -/
theorem derivesArguments (cs : List Char) : DerivesArguments cs := by
  induction hlen : cs.length using Nat.strongRecOn generalizing cs with
  | ind n ih =>
    have hshorter : ∀ inside : List Char, inside.length < cs.length → DerivesArguments inside :=
      fun inside hlt => ih inside.length (hlen ▸ hlt) inside rfl
    exact .of_reference (.of_atom (.of_arguments hshorter)) hshorter

/-- A reference that is read derives from the grammar. -/
theorem derivesReference (cs : List Char) : DerivesReference cs :=
  .of_atom (.of_arguments fun inside _ => derivesArguments inside)

/-- A text that is read as a reference derives it. -/
theorem whole_of_parse {text : String} {r : Reference} (h : parse text = .ok r) :
    Whole text.toList r := by
  rw [parse] at h
  split at h
  · cases h
  · next r' rest hread =>
    split at h
    · next hend =>
      cases h
      have hleaving : leaving (readReference text.toList) = .ok (r, rest.1) := by
        rw [hread]
        rfl
      obtain ⟨used, gap, hw, hg, hcs⟩ := derivesReference _ _ _ hleaving
      obtain ⟨gap', hg', hafter⟩ := exists_blanks rest.1
      rw [hend, List.append_nil] at hafter
      rw [hcs, List.append_assoc]
      refine .mk hw fun c hc => ?_
      rw [hafter] at hc
      exact (List.mem_append.mp hc).elim (hg c) (hg' c)
    · cases h

end ApiTypings.Reference
