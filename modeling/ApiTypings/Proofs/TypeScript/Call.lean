import ApiTypings.Proofs.TypeScript.Quoted

/-!
# Calls are read back

A name ends before the parenthesis that opens the arguments of its call, each argument ends before
its comma or before the parenthesis that closes them, and a call may be called again. So a text of
identifiers and calls is read from the left in one way, whatever is called in what follows it.
-/

namespace ApiTypings.TypeScript

/-- An identifier that is no word of the language, or a call of such expressions. -/
inductive Expr.Plain : Expr → Prop where
  | ident {name} : isPlainName name.toList = true → name ∉ Literal.keywords → Plain (.ident name)
  | call {callee args} : Plain callee → (∀ a ∈ args, Plain a) → Plain (.call callee [] args)

/-- The identifier that a name is made is plain. -/
theorem Expr.Plain.identifier (name : String) : (Expr.ident (identifier name)).Plain :=
  .ident (isPlainName_identifier name) fun h =>
    identifier_not_mem_reservedWords name (List.mem_of_mem_erase h)

namespace Literal

open Grammar (EndsName endsName_cons)

variable {c : Char} {cs ds rest : List Char} {e f : Expr} {args es : List Expr}

/-! ## Blanks -/

private theorem isBlank_of_isPlainChar (h : isPlainChar c = true) : Text.isBlank c = false := by
  rw [isPlainChar, Bool.or_eq_true, Bool.or_eq_true, beq_iff_eq, beq_iff_eq] at h
  rcases h with (halphanum | rfl) | rfl
  · apply Reference.isBlank_of_isNameChar
    rw [Reference.isNameChar, halphanum]
    rfl
  · decide
  · decide

/-- No character of a name is blank. -/
theorem isBlank_of_isNameChar (h : isNameChar c = true) : Text.isBlank c = false := by
  rw [isNameChar, Bool.or_eq_true, Bool.and_eq_true, Bool.not_eq_true'] at h
  rcases h with hplain | hbeyond
  · exact isBlank_of_isPlainChar hplain
  · exact hbeyond.2

private theorem next_cons (h : Text.isBlank c = false) (cs : List Char) :
    next (c :: cs) = c :: cs :=
  Reference.dropBlanks_cons h cs

private theorem expression_blank_iff : Expression (' ' :: cs) e rest ↔ Expression cs e rest := by
  -- Both look at the text behind its blanks, which is the same text.
  constructor
  · rintro ⟨hname, hread, hends, hword, hcalls⟩
    exact .of hname hread hends hword hcalls
  · rintro ⟨hname, hread, hends, hword, hcalls⟩
    exact .of hname hread hends hword hcalls

private theorem arguments_blank_iff : Arguments (' ' :: cs) args rest ↔ Arguments cs args rest := by
  constructor
  · intro h
    cases h with
    | none hclose => exact .none hclose
    | last hexpr hclose => exact .last (expression_blank_iff.mp hexpr) hclose
    | more hexpr hcomma hmore => exact .more (expression_blank_iff.mp hexpr) hcomma hmore
  · intro h
    cases h with
    | none hclose => exact .none hclose
    | last hexpr hclose => exact .last (expression_blank_iff.mpr hexpr) hclose
    | more hexpr hcomma hmore => exact .more (expression_blank_iff.mpr hexpr) hcomma hmore

/-! ## One lemma for each part of a call -/

/-- A name is read as what is called behind it. -/
theorem expression_name_iff {name : String} (hplain : isPlainName name.toList = true)
    (hword : name ∉ keywords) (hds : EndsName ds) :
    Expression (name.toList ++ ds) e rest ↔ Calls (.ident name) ds e rest := by
  have hname := isName_of_isPlainName hplain
  have hnext : next (name.toList ++ ds) = name.toList ++ ds := by
    obtain ⟨c, cs, hcs, hc⟩ := exists_cons_of_isName hname
    rw [hcs]
    exact next_cons (isBlank_of_isNameChar hc) _
  constructor
  · rintro ⟨hcut, hread, hends, _, hcalls⟩
    rw [hnext] at hcut
    obtain ⟨hsame, rfl⟩ := append_inj_of_stops (isNameChar_of_isName hname)
      (isNameChar_of_isName hread) hds hends hcut
    rwa [← hsame, String.ofList_toList] at hcalls
  · intro hcalls
    have hofList : String.ofList name.toList = name := String.ofList_toList
    exact .of hnext hname hds (by rwa [hofList]) (by rwa [hofList])

/-- A mark starts no expression. -/
theorem not_expression (hname : isNameChar c = false) (hblank : Text.isBlank c = false) :
    ¬ Expression (c :: cs) e rest := by
  rintro ⟨hcut, hread, -, -, -⟩
  obtain ⟨d, name, rfl, hd⟩ := exists_cons_of_isName hread
  rw [next_cons hblank] at hcut
  cases hcut
  rw [hd] at hname
  cases hname

private theorem calls_open_iff :
    Calls f ('(' :: cs) e rest ↔
      ∃ args ds, Arguments cs args ds ∧ Calls (.call f [] args) ds e rest := by
  constructor
  · intro h
    cases h with
    | none hopen => exact absurd rfl hopen
    | call hopen hargs hcalls =>
      cases hopen
      exact ⟨_, _, hargs, hcalls⟩
  · rintro ⟨args, ds, hargs, hcalls⟩
    exact .call rfl hargs hcalls

private theorem calls_end_iff (hopen : c ≠ '(') (hblank : Text.isBlank c = false) :
    Calls f (c :: cs) e rest ↔ e = f ∧ rest = c :: cs := by
  have hnext := next_cons hblank cs
  constructor
  · intro h
    cases h with
    | none => exact ⟨rfl, rfl⟩
    | call hcall =>
      rw [hnext] at hcall
      exact absurd (List.head_eq_of_cons_eq hcall) hopen
  · rintro ⟨rfl, rfl⟩
    apply Calls.none
    rw [hnext]
    exact fun hhead => hopen (Option.some.inj hhead)

/-- A text that an expression is read from, whatever follows it: the calls of what follows are calls
of the expression. -/
structure Leads (cs : List Char) (f : Expr) : Prop where
  starts : ∃ c ds, cs = c :: ds ∧ isNameChar c = true
  reads : ∀ {ds e rest}, EndsName ds → (Expression (cs ++ ds) e rest ↔ Calls f ds e rest)

/-- A text that leads to an expression is read as it. -/
theorem Leads.expression_iff (h : Leads cs f) (hname : isNameChar c = false)
    (hopen : c ≠ '(') (hblank : Text.isBlank c = false) :
    Expression (cs ++ c :: ds) e rest ↔ e = f ∧ rest = c :: ds := by
  rw [h.reads (endsName_cons hname), calls_end_iff hopen hblank]

/-! ## Arguments -/

private theorem arguments_close_iff : Arguments (')' :: cs) args rest ↔ args = [] ∧ rest = cs := by
  constructor
  · intro h
    cases h with
    | none hclose =>
      cases hclose
      exact ⟨rfl, rfl⟩
    | last hexpr => exact absurd hexpr (not_expression (by decide) (by decide))
    | more hexpr => exact absurd hexpr (not_expression (by decide) (by decide))
  · rintro ⟨rfl, rfl⟩
    exact .none rfl

/-- After an argument, a parenthesis or a comma tells whether another follows. -/
theorem Leads.arguments_iff (h : Leads cs f) (hc : c = ')' ∨ c = ',') :
    Arguments (cs ++ c :: ds) args rest ↔
      c = ')' ∧ args = [f] ∧ rest = ds ∨
        c = ',' ∧ ∃ es, Arguments ds es rest ∧ args = f :: es := by
  have hmark : isNameChar c = false ∧ c ≠ '(' ∧ Text.isBlank c = false := by
    rcases hc with rfl | rfl <;> decide
  have hnext := next_cons hmark.2.2 ds
  have hexpr : ∀ {e rest}, Expression (cs ++ c :: ds) e rest ↔ e = f ∧ rest = c :: ds :=
    h.expression_iff hmark.1 hmark.2.1 hmark.2.2
  constructor
  · intro hargs
    cases hargs with
    | none hclose =>
      obtain ⟨d, cs, rfl, hd⟩ := h.starts
      rw [List.cons_append, next_cons (isBlank_of_isNameChar hd)] at hclose
      cases hclose
      exact absurd hd (by decide)
    | last hread hclose =>
      obtain ⟨rfl, rfl⟩ := hexpr.mp hread
      rw [hnext] at hclose
      cases hclose
      exact .inl ⟨rfl, rfl, rfl⟩
    | more hread hcomma hmore =>
      obtain ⟨rfl, rfl⟩ := hexpr.mp hread
      rw [hnext] at hcomma
      cases hcomma
      exact .inr ⟨rfl, _, hmore, rfl⟩
  · rintro (⟨rfl, rfl, rfl⟩ | ⟨rfl, es, hmore, rfl⟩)
    · exact .last (hexpr.mpr ⟨rfl, rfl⟩) hnext
    · exact .more (hexpr.mpr ⟨rfl, rfl⟩) hnext hmore

/-- Arguments with commas between them are read in exactly one way. -/
theorem arguments_texts_iff (h : ∀ a ∈ args, Leads a.text.toList a) :
    Arguments ((Text.join ", " (Expr.texts args)).toList ++ ')' :: ds) es rest ↔
      es = args ∧ rest = ds := by
  induction args generalizing es with
  | nil => exact arguments_close_iff
  | cons a args ih =>
    rw [List.forall_mem_cons] at h
    cases args with
    | nil =>
      change Arguments (a.text.toList ++ ')' :: ds) es rest ↔ _
      rw [h.1.arguments_iff (.inl rfl)]
      simp
    | cons b args =>
      have htext : (Text.join ", " (Expr.texts (a :: b :: args))).toList ++ ')' :: ds =
          a.text.toList ++ ',' :: ' ' ::
            ((Text.join ", " (Expr.texts (b :: args))).toList ++ ')' :: ds) := by
        simp [Expr.texts, Text.join]
      rw [htext, h.1.arguments_iff (.inr rfl)]
      simp only [arguments_blank_iff, ih h.2]
      constructor
      · rintro (⟨⟨⟩, -⟩ | ⟨-, _, ⟨rfl, hrest⟩, rfl⟩)
        exact ⟨rfl, hrest⟩
      · rintro ⟨rfl, hrest⟩
        exact .inr ⟨trivial, _, ⟨rfl, hrest⟩, rfl⟩

/-- A plain expression is read from its text. -/
theorem leads_of_plain (h : e.Plain) : Leads e.text.toList e := by
  induction h with
  | @ident name hplain hword =>
    refine ⟨?_, fun hends => ?_⟩
    · rw [Expr.text]
      exact exists_cons_of_isName (isName_of_isPlainName hplain)
    · rw [Expr.text]
      exact expression_name_iff hplain hword hends
  | @call callee args _ _ ihcallee ihargs =>
    have htext : ∀ ds, (Expr.call callee [] args).text.toList ++ ds = callee.text.toList ++
        '(' :: ((Text.join ", " (Expr.texts args)).toList ++ ')' :: ds) := by
      intro ds
      simp [Expr.text, TypeExpr.texts, angled]
    refine ⟨?_, fun hends => ?_⟩
    · obtain ⟨c, ds, hstart, hc⟩ := ihcallee.starts
      have hwhole := htext []
      rw [List.append_nil, hstart] at hwhole
      exact ⟨c, _, hwhole, hc⟩
    · rw [htext, ihcallee.reads (endsName_cons (by decide)), calls_open_iff]
      simp only [arguments_texts_iff ihargs]
      constructor
      · rintro ⟨_, _, ⟨rfl, rfl⟩, hcalls⟩
        exact hcalls
      · intro hcalls
        exact ⟨_, _, ⟨rfl, rfl⟩, hcalls⟩

end Literal

end ApiTypings.TypeScript
