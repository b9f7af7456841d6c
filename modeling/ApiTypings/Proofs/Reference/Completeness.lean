import ApiTypings.Proofs.Reference.Reading

/-!
# Every derivation is read

A text that derives a reference is read to its end, and to that reference, whatever follows it,
as long as what follows does not go on with its last token. There is one lemma for each
alternative of the grammar, and the induction over a derivation only puts them together.
-/

namespace ApiTypings.Reference

open Text Grammar

/-- What follows a name without going on with it. -/
structure EndsName (rest : List Char) : Prop where
  name : Stops isNameChar rest
  dot : ∀ more, rest ≠ '.' :: more

/-- What follows a reference without going on with its name or its arguments. -/
structure Ends (rest : List Char) : Prop extends EndsName rest where
  arguments : ∀ inside, dropBlanks rest ≠ '<' :: inside

private theorem EndsName.of_blanks {blanks : List Char} (h : Blanks blanks) : EndsName blanks where
  name := by
    intro c hc
    have hb : isBlank c = true := h c (List.mem_of_head? hc)
    cases hn : isNameChar c with
    | false => rfl
    | true =>
      rw [isBlank_of_isNameChar hn] at hb
      cases hb
  dot := by
    rintro more rfl
    exact absurd (h '.' (List.mem_cons_self ..)) (by decide)

/-- A token other than a dot ends a name, with or without blanks before it. -/
theorem EndsName.of_cons {blanks : List Char} {c : Char} (h : Blanks blanks)
    (hn : isNameChar c = false) (hdot : c ≠ '.') (more : List Char) :
    EndsName (blanks ++ c :: more) := by
  cases blanks with
  | nil =>
    refine ⟨?_, fun rest hr => hdot (List.cons.inj hr).1⟩
    rintro d ⟨⟩
    exact hn
  | cons b blanks =>
    have hends := EndsName.of_blanks h
    refine ⟨fun d hd => hends.name d hd, fun rest hr => ?_⟩
    exact hends.dot blanks (congrArg (· :: blanks) (List.cons.inj hr).1)

private theorem Ends.of_blanks {blanks : List Char} (h : Blanks blanks) : Ends blanks where
  toEndsName := .of_blanks h
  arguments := by
    intro inside hi
    have hd := dropBlanks_append h []
    rw [List.append_nil, hi] at hd
    cases hd

/-- The characters that can follow a reference, blanks apart: those that begin a suffix, and those
that end an argument. -/
def followers : List Char := ['[', '?', ',', '>']

private theorem mem_followers_iff {c : Char} :
    c ∈ followers ↔ c = '[' ∨ c = '?' ∨ c = ',' ∨ c = '>' := by
  simp only [followers, List.mem_cons, List.not_mem_nil, or_false]

private theorem not_blank_of_mem_followers {c : Char} (h : c ∈ followers) : isBlank c = false := by
  rcases mem_followers_iff.mp h with rfl | rfl | rfl | rfl <;> decide

private theorem not_name_of_mem_followers {c : Char} (h : c ∈ followers) :
    isNameChar c = false ∧ c ≠ '.' ∧ c ≠ '<' := by
  rcases mem_followers_iff.mp h with rfl | rfl | rfl | rfl <;> decide

/-- What can follow a reference ends it, with or without blanks before it. -/
theorem Ends.of_follower {blanks : List Char} {c : Char} (h : Blanks blanks) (hc : c ∈ followers)
    (more : List Char) : Ends (blanks ++ c :: more) := by
  have hb := not_blank_of_mem_followers hc
  obtain ⟨hn, hdot, hlt⟩ := not_name_of_mem_followers hc
  refine ⟨.of_cons h hn hdot more, ?_⟩
  intro inside hi
  rw [dropBlanks_append_cons h hb] at hi
  exact hlt (List.cons.inj hi).1

/-- A dotted name is read segment by segment up to what ends it. -/
theorem leaving_readName_of_name {cs rest : List Char} {segments : List (List Char)}
    (h : Name cs segments) (hr : EndsName rest) :
    leaving (readName (cs ++ rest)) = .ok (segments, rest) := by
  induction h with
  | last hs =>
    have hall := isNameChar_of_isSegment hs
    have htake := takeWhile_append_stops hall hr.name
    have hdrop := dropWhile_append_stops hall hr.name
    rw [leaving_readName_last (by rw [htake]; exact hs) (by rw [hdrop]; exact hr.dot),
      htake, hdrop]
  | @more segment cs segments hs _ ih =>
    have hall := isNameChar_of_isSegment hs
    have hdot : Stops isNameChar ('.' :: (cs ++ rest)) := by
      rintro c ⟨⟩
      decide
    have htake := takeWhile_append_stops hall hdot
    have hdrop := dropWhile_append_stops hall hdot
    rw [List.append_assoc, List.cons_append,
      leaving_readName_dot (by rw [htake]; exact hs) hdrop, htake, ih]
    rfl

private theorem exists_cons_of_name {cs : List Char} {segments : List (List Char)}
    (h : Name cs segments) : ∃ c more, cs = c :: more ∧ isNameChar c = true := by
  have hfirst : ∀ segment : List Char, isSegment segment = true → ∀ rest : List Char,
      ∃ c more, segment ++ rest = c :: more ∧ isNameChar c = true := by
    intro segment hs rest
    obtain ⟨c, more, rfl⟩ := List.exists_cons_of_ne_nil (ne_nil_of_isSegment hs)
    exact ⟨c, more ++ rest, rfl, isNameChar_of_isSegment hs c (List.mem_cons_self ..)⟩
  cases h with
  | last hs => simpa using hfirst _ hs []
  | more hs _ => exact hfirst _ hs _

/-- No blank and no `!` stands at the beginning of a name. -/
theorem dropBlanks_name {blanks cs : List Char} {segments : List (List Char)}
    (hb : Blanks blanks) (h : Name cs segments) (rest : List Char) :
    dropBlanks (blanks ++ (cs ++ rest)) = cs ++ rest ∧ ∀ digits, cs ++ rest ≠ '!' :: digits := by
  obtain ⟨c, more, rfl, hc⟩ := exists_cons_of_name h
  refine ⟨dropBlanks_append_cons hb (isBlank_of_isNameChar hc) _, ?_⟩
  intro digits he
  rw [(List.cons.inj he).1] at hc
  exact absurd hc (by decide)

/-- A text is read as a reference, up to the suffixes after it, whatever ends it. -/
def ReadsReference (cs : List Char) (r : Reference) : Prop :=
  ∀ rest, Ends rest → leaving (readReference (cs ++ rest)) = .ok (readSuffixes r rest)

/-- A text is read as an atom, up to blanks that the suffixes after it would skip. -/
def ReadsAtom (cs : List Char) (r : Reference) : Prop :=
  ∀ rest, Ends rest → ∃ after, leaving (readAtom (cs ++ rest)) = .ok (r, after) ∧
    readSuffixes r after = readSuffixes r rest

/-- A text is read as arguments with their `>`, whatever follows. -/
def ReadsArguments (cs : List Char) (args : List Reference) : Prop :=
  ∀ rest, leaving (readArguments (cs ++ rest)) = .ok (args, rest)

section Constructors

variable {cs blanks : List Char} {r : Reference}

/-- An atom is read as a reference. -/
theorem ReadsReference.atom (h : ReadsAtom cs r) : ReadsReference cs r := by
  intro rest hr
  obtain ⟨after, hread, hafter⟩ := h rest hr
  rw [leaving_readReference, hread, ← hafter]
  rfl

/-- Brackets behind a reference are read as an array of it. -/
theorem ReadsReference.array (h : ReadsReference cs r) (hb : Blanks blanks) :
    ReadsReference (cs ++ blanks ++ ['[', ']']) (.array r) := by
  intro rest _
  have hc : '[' ∈ followers := by decide
  have hread := h _ (Ends.of_follower hb hc (']' :: rest))
  rw [readSuffixes_blanks r hb] at hread
  have hassoc : cs ++ blanks ++ ['[', ']'] ++ rest = cs ++ (blanks ++ '[' :: ']' :: rest) := by
    simp only [List.append_assoc, List.cons_append, List.nil_append]
  rw [hassoc]
  exact hread

/-- A mark behind a reference is read as making it nullable. -/
theorem ReadsReference.nullable (h : ReadsReference cs r) (hb : Blanks blanks) :
    ReadsReference (cs ++ blanks ++ ['?']) (.nullable r) := by
  intro rest _
  have hc : '?' ∈ followers := by decide
  have hread := h _ (Ends.of_follower hb hc rest)
  rw [readSuffixes_blanks r hb] at hread
  have hassoc : cs ++ blanks ++ ['?'] ++ rest = cs ++ (blanks ++ '?' :: rest) := by
    simp only [List.append_assoc, List.cons_append, List.nil_append]
  rw [hassoc]
  exact hread

/-- A token that ends a reference and begins no suffix is what a reader leaves. -/
theorem ReadsReference.leaving_cons (h : ReadsReference cs r) (hb : Blanks blanks) {c : Char}
    (hc : c = ',' ∨ c = '>') (more : List Char) :
    leaving (readReference (cs ++ (blanks ++ c :: more))) = .ok (r, c :: more) := by
  have hmem : c ∈ followers := by rcases hc with rfl | rfl <;> decide
  rw [h _ (Ends.of_follower hb hmem more), readSuffixes_blanks r hb,
    readSuffixes_end r (not_blank_of_mem_followers hmem)]
  all_goals rcases hc with rfl | rfl <;> decide

/-- A position is read as a parameter. -/
theorem ReadsAtom.param {digits : List Char} (hb : Blanks blanks) (hne : digits ≠ [])
    (hd : digits.all Char.isDigit = true) (hlt : decimal digits < positionBound) :
    ReadsAtom (blanks ++ '!' :: digits) (.param (decimal digits)) := by
  intro rest hr
  have hstart : dropBlanks (blanks ++ '!' :: digits ++ rest) = '!' :: (digits ++ rest) := by
    rw [List.append_assoc, List.cons_append, dropBlanks_append_cons hb (by decide)]
  have hstop : Stops Char.isDigit rest := by
    intro c hc
    cases hdigit : c.isDigit with
    | false => rfl
    | true => exact (isNameChar_of_isDigit hdigit).symm.trans (hr.name c hc)
  refine ⟨rest, ?_, rfl⟩
  rw [leaving_readAtom_position hstart, readPosition_digits hne hd hlt hstop]
  rfl

/-- A name is read as a type without arguments. -/
theorem ReadsAtom.simple {name : List Char} {segments : List (List Char)} (hb : Blanks blanks)
    (hn : Name name segments) : ReadsAtom (blanks ++ name) (ofSegments segments []) := by
  intro rest hr
  obtain ⟨hstart, hbang⟩ := dropBlanks_name hb hn rest
  rw [← List.append_assoc] at hstart
  have hname := leaving_readName_of_name hn hr.toEndsName
  rw [← hstart] at hbang hname
  exact ⟨dropBlanks rest, leaving_readAtom_simple hbang hname hr.arguments,
    readSuffixes_dropBlanks _ rest⟩

/-- A name with arguments is read as a type with them. -/
theorem ReadsAtom.generic {name gap inside : List Char} {segments : List (List Char)}
    {args : List Reference} (hb : Blanks blanks) (hn : Name name segments) (hg : Blanks gap)
    (h : ReadsArguments inside args) :
    ReadsAtom (blanks ++ name ++ gap ++ '<' :: inside) (ofSegments segments args) := by
  intro rest _
  have hassoc : blanks ++ name ++ gap ++ '<' :: inside ++ rest =
      blanks ++ (name ++ (gap ++ '<' :: (inside ++ rest))) := by
    simp only [List.append_assoc, List.cons_append]
  obtain ⟨hstart, hbang⟩ := dropBlanks_name hb hn (gap ++ '<' :: (inside ++ rest))
  have hname := leaving_readName_of_name hn
    (EndsName.of_cons (c := '<') hg (by decide) (by decide) (inside ++ rest))
  rw [← hassoc] at hstart
  rw [← hstart] at hbang hname
  refine ⟨rest, ?_, rfl⟩
  rw [leaving_readAtom_generic hbang hname (dropBlanks_append_cons hg (by decide) _), h rest]
  rfl

/-- The argument before the end is read as the last. -/
theorem ReadsArguments.last (h : ReadsReference cs r) (hb : Blanks blanks) :
    ReadsArguments (cs ++ blanks ++ ['>']) [r] := by
  intro rest
  have hassoc : cs ++ blanks ++ ['>'] ++ rest = cs ++ (blanks ++ '>' :: rest) := by
    simp only [List.append_assoc, List.cons_append, List.nil_append]
  rw [hassoc]
  exact leaving_readArguments_last (h.leaving_cons hb (Or.inr rfl) rest)
    (dropBlanks_cons (by decide) rest)

/-- An argument before a comma is read as one before others. -/
theorem ReadsArguments.more {more : List Char} {rs : List Reference} (h : ReadsReference cs r)
    (hb : Blanks blanks) (hs : ReadsArguments more rs) :
    ReadsArguments (cs ++ blanks ++ ',' :: more) (r :: rs) := by
  intro rest
  have hassoc : cs ++ blanks ++ ',' :: more ++ rest = cs ++ (blanks ++ ',' :: (more ++ rest)) := by
    simp only [List.append_assoc, List.cons_append]
  rw [hassoc, leaving_readArguments_more (h.leaving_cons hb (Or.inl rfl) (more ++ rest))
    (dropBlanks_cons (by decide) _), hs rest]
  rfl

end Constructors

/-- Every written reference is read. -/
theorem readsReference_of_written {cs : List Char} {r : Reference} (h : Written cs r) :
    ReadsReference cs r :=
  @Written.rec (fun cs r _ => ReadsReference cs r) (fun cs r _ => ReadsAtom cs r)
    (fun cs args _ => ReadsArguments cs args)
    (fun _ ih => .atom ih)
    (fun _ hb ih => ih.array hb)
    (fun _ hb ih => ih.nullable hb)
    (fun hb hne hd hlt => .param hb hne hd hlt)
    (fun hb hn => .simple hb hn)
    (fun hb hn hg _ ih => .generic hb hn hg ih)
    (fun _ hb ih => .last ih hb)
    (fun _ hb _ ih ihs => .more ih hb ihs)
    cs r h

/-- A whole text is read as the reference that it derives. -/
theorem parse_of_whole {text : String} {r : Reference} (h : Whole text.toList r) :
    parse text = .ok r := by
  generalize hcs : text.toList = cs at h
  obtain @⟨cs, blanks, r, hw, hb⟩ := h
  have hread := readsReference_of_written hw blanks (Ends.of_blanks hb)
  have hsuffix : readSuffixes r blanks = (r, []) := by
    rw [← List.append_nil blanks, readSuffixes_blanks r hb]
    rfl
  rw [hsuffix, ← hcs] at hread
  obtain ⟨hlt, hread⟩ := eq_ok_of_leaving hread
  rw [parse, hread]
  rfl

end ApiTypings.Reference
