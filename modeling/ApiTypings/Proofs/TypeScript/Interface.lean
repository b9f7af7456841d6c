import ApiTypings.Proofs.TypeScript.Identifier
import ApiTypings.Proofs.TypeScript.Readback
import ApiTypings.TypeScript.Declaration

/-!
# Interfaces are read back

The lines of an interface without methods determine what it was written from. In the first line the
name ends where its characters end, and each parameter does, too; what is extended stands between
its keyword and the brace. In the line of a property the key ends at its colon: a plain key holds
none, and a quoted one ends at the first quote that is not escaped, whatever characters the name
holds.
-/

namespace ApiTypings.TypeScript

open Reference (Stops takeWhile_append_stops dropWhile_append_stops)
open Grammar (EndsName endsName_cons)

variable {rest rest' : List Char}

/-- Runs that stop are told apart from what follows them. -/
theorem append_inj_of_stops {p : Char → Bool} {run run' : List Char} (h : ∀ c ∈ run, p c = true)
    (h' : ∀ c ∈ run', p c = true) (hr : Stops p rest) (hr' : Stops p rest')
    (heq : run ++ rest = run' ++ rest') : run = run' ∧ rest = rest' := by
  have htake := takeWhile_append_stops h hr
  have hdrop := dropWhile_append_stops h hr
  rw [heq, takeWhile_append_stops h' hr'] at htake
  rw [heq, dropWhile_append_stops h' hr'] at hdrop
  exact ⟨htake.symm, hdrop.symm⟩

/-! ## Keys -/

/-- A character with the backslash that it needs between quotes. -/
def escapedChar (c : Char) : List Char := if c = '\\' ∨ c = '"' then ['\\', c] else [c]

/-- Text between quotes is escaped character by character. -/
theorem escapeQuotedChars_eq (cs : List Char) : escapeQuotedChars cs = cs.flatMap escapedChar := by
  induction cs with
  | nil => rfl
  | cons c cs ih =>
    rw [List.flatMap_cons, ← ih, escapedChar]
    split
    · next h => rcases h with rfl | rfl <;> rfl
    · next h =>
      obtain ⟨hbackslash, hquote⟩ := not_or.mp h
      rw [escapeQuotedChars]
      · rfl
      · exact hbackslash
      · exact hquote

private theorem escapedChar_ne_quote (c : Char) : escapedChar c ++ rest ≠ '"' :: rest' := by
  rw [escapedChar]
  split
  · exact fun h => absurd (List.head_eq_of_cons_eq h) (by decide)
  · next hplain => exact fun h => hplain (.inr (List.head_eq_of_cons_eq h))

private theorem escapedChar_append_inj {c d : Char}
    (h : escapedChar c ++ rest = escapedChar d ++ rest') : c = d ∧ rest = rest' := by
  rw [escapedChar, escapedChar] at h
  split at h <;> split at h
  · exact List.cons_eq_cons.mp (List.tail_eq_of_cons_eq h)
  · next hplain => exact absurd (.inl (List.head_eq_of_cons_eq h).symm) hplain
  · next hplain _ => exact absurd (.inl (List.head_eq_of_cons_eq h)) hplain
  · exact List.cons_eq_cons.mp h

/-- An escaped text ends at the first quote that is not escaped. -/
theorem escapeQuotedChars_append_inj {cs ds : List Char}
    (h : escapeQuotedChars cs ++ '"' :: rest = escapeQuotedChars ds ++ '"' :: rest') :
    cs = ds ∧ rest = rest' := by
  rw [escapeQuotedChars_eq, escapeQuotedChars_eq] at h
  induction cs generalizing ds with
  | nil =>
    cases ds with
    | nil => exact ⟨rfl, List.tail_eq_of_cons_eq h⟩
    | cons d ds =>
      rw [List.flatMap_cons, List.append_assoc] at h
      exact absurd h.symm (escapedChar_ne_quote d)
  | cons c cs ih =>
    rw [List.flatMap_cons, List.append_assoc] at h
    cases ds with
    | nil => exact absurd h (escapedChar_ne_quote c)
    | cons d ds =>
      rw [List.flatMap_cons, List.append_assoc] at h
      obtain ⟨rfl, hcs⟩ := escapedChar_append_inj h
      obtain ⟨rfl, hrest⟩ := ih hcs
      exact ⟨rfl, hrest⟩

private theorem isPlainName_cons {c : Char} {cs : List Char} (h : isPlainName (c :: cs) = true) :
    isPlainStart c = true ∧ ∀ d ∈ c :: cs, isPlainChar d = true := by
  rw [isPlainName, Bool.and_eq_true, List.all_eq_true] at h
  exact h

/-- A plain key is not read as a quoted one. -/
theorem plain_ne_quoted {name : String} (h : needsQuotes name = false) :
    name.toList ++ rest ≠ '"' :: rest' := by
  rw [needsQuotes, Bool.not_eq_false'] at h
  intro heq
  cases hname : name.toList with
  | nil =>
    rw [hname] at h
    cases h
  | cons c cs =>
    rw [hname] at h heq
    cases heq
    exact absurd (isPlainName_cons h).1 (by decide)

/-- A key ends at its colon. -/
theorem key_append_inj {s t : String}
    (h : (key s).toList ++ ':' :: rest = (key t).toList ++ ':' :: rest') :
    s = t ∧ rest = rest' := by
  have hkey : ∀ name, (key name).toList =
      if needsQuotes name then '"' :: (escapeQuotedChars name.toList ++ ['"'])
      else name.toList := by
    intro name
    rw [key]
    split
    · simp [quoted, escapeQuoted]
    · rfl
  have hplain : ∀ {name}, needsQuotes name = false → ∀ c ∈ name.toList, isPlainChar c = true := by
    intro name hname
    rw [needsQuotes, Bool.not_eq_false'] at hname
    cases hcs : name.toList with
    | nil => exact fun _ => nofun
    | cons c cs =>
      rw [hcs] at hname
      exact (isPlainName_cons hname).2
  have hcolon : ∀ rest, Stops isPlainChar (':' :: rest) := by
    rintro rest _ ⟨⟩
    decide
  rw [hkey, hkey] at h
  -- The first character tells a quoted key from a plain one.
  cases hs : needsQuotes s with
  | true =>
    cases ht : needsQuotes t with
    | true =>
      simp only [hs, ht, if_true, List.cons_append, List.cons.injEq, true_and,
        List.append_assoc] at h
      obtain ⟨hname, hrest⟩ := escapeQuotedChars_append_inj h
      exact ⟨String.toList_inj.mp hname, List.tail_eq_of_cons_eq hrest⟩
    | false =>
      simp only [hs, ht, if_true, Bool.false_eq_true, if_false] at h
      exact absurd h.symm (plain_ne_quoted ht)
  | false =>
    cases ht : needsQuotes t with
    | true =>
      simp only [hs, ht, if_true, Bool.false_eq_true, if_false] at h
      exact absurd h (plain_ne_quoted hs)
    | false =>
      simp only [hs, ht, Bool.false_eq_true, if_false] at h
      obtain ⟨hname, hrest⟩ := append_inj_of_stops (hplain hs) (hplain ht) (hcolon _) (hcolon _) h
      exact ⟨String.toList_inj.mp hname, List.tail_eq_of_cons_eq hrest⟩

/-! ## Names -/

/-- A plain name is a name. -/
theorem isName_of_isPlainName {cs : List Char} (h : isPlainName cs = true) : isName cs = true := by
  cases cs with
  | nil => cases h
  | cons c cs =>
    obtain ⟨hstart, hall⟩ := isPlainName_cons h
    have hchars : ∀ d ∈ c :: cs, isNameChar d = true := by
      intro d hd
      rw [isNameChar, hall d hd, Bool.true_or]
    rw [List.forall_mem_cons] at hchars
    rw [isName, isNameStart, hchars.1, isDigit_of_isPlainStart hstart,
      List.all_eq_true.mpr hchars.2]
    rfl

/-- A name has characters of names only. -/
theorem isNameChar_of_isName {name : List Char} (h : isName name = true) :
    ∀ c ∈ name, isNameChar c = true := by
  cases name with
  | nil => cases h
  | cons c cs =>
    rw [isName, Bool.and_eq_true, List.all_eq_true, isNameStart, Bool.and_eq_true] at h
    exact List.forall_mem_cons.mpr ⟨h.1.1, h.2⟩

/-- A name has a first character. -/
theorem exists_cons_of_isName {name : List Char} (h : isName name = true) :
    ∃ c cs, name = c :: cs ∧ isNameChar c = true := by
  cases name with
  | nil => cases h
  | cons c cs => exact ⟨c, cs, rfl, isNameChar_of_isName h c List.mem_cons_self⟩

private theorem isNameChar_of_isTypeName {name : String} (h : IsTypeName name) :
    ∀ c ∈ name.toList, isNameChar c = true :=
  isNameChar_of_isName h.isName

/-- The identifier that a name is made does not become the name of a type of the language. -/
theorem isTypeName_identifier {name : String} (h : name ∉ languageTypes) :
    IsTypeName (identifier name) where
  isName := isName_of_isPlainName (isPlainName_identifier name)
  not_language := by
    have hbare : ∀ w ∈ languageTypes, '_' ∉ w.toList := by decide
    exact fun hmem => h (eq_of_identifier_eq (hbare _ hmem) rfl ▸ hmem)

/-- A name ends before the first mark. -/
theorem typeName_append_inj {n m : String} {c d : Char} (hn : IsTypeName n) (hm : IsTypeName m)
    (hc : isNameChar c = false) (hd : isNameChar d = false)
    (h : n.toList ++ c :: rest = m.toList ++ d :: rest') : n = m ∧ c = d ∧ rest = rest' := by
  obtain ⟨hname, hafter⟩ := append_inj_of_stops (isNameChar_of_isTypeName hn)
    (isNameChar_of_isTypeName hm) (endsName_cons hc) (endsName_cons hd) h
  exact ⟨String.toList_inj.mp hname, List.cons_eq_cons.mp hafter⟩

/-! ## Names between angle brackets -/

/-- Names with commas between them end where they are closed. -/
theorem join_append_inj {ns ms : List String} (hn : ∀ n ∈ ns, IsTypeName n)
    (hm : ∀ m ∈ ms, IsTypeName m) (hne : ns ≠ []) (hme : ms ≠ [])
    (h : (Text.join ", " ns).toList ++ '>' :: rest = (Text.join ", " ms).toList ++ '>' :: rest') :
    ns = ms ∧ rest = rest' := by
  -- After each name a comma or the bracket tells whether another follows.
  induction ns generalizing ms with
  | nil => exact absurd rfl hne
  | cons n ns ih =>
    rw [List.forall_mem_cons] at hn
    cases ms with
    | nil => exact absurd rfl hme
    | cons m ms =>
      rw [List.forall_mem_cons] at hm
      cases ns with
      | nil =>
        cases ms with
        | nil =>
          obtain ⟨rfl, _, hrest⟩ := typeName_append_inj hn.1 hm.1 (by decide) (by decide) h
          exact ⟨rfl, hrest⟩
        | cons m' ms =>
          simp only [Text.join, String.toList_append, List.append_assoc] at h
          obtain ⟨_, hmark, _⟩ := typeName_append_inj (d := ',') hn.1 hm.1 (by decide) (by decide) h
          exact absurd hmark (by decide)
      | cons n' ns =>
        simp only [Text.join, String.toList_append, List.append_assoc] at h
        cases ms with
        | nil =>
          obtain ⟨_, hmark, _⟩ := typeName_append_inj (c := ',') hn.1 hm.1 (by decide) (by decide) h
          exact absurd hmark (by decide)
        | cons m' ms =>
          simp only [Text.join, String.toList_append, List.append_assoc] at h
          obtain ⟨rfl, _, hafter⟩ := typeName_append_inj (c := ',') (d := ',') hn.1 hm.1
            (by decide) (by decide) h
          obtain ⟨hnames, hrest⟩ := ih hn.2 hm.2 (List.cons_ne_nil _ _)
            (List.cons_ne_nil _ _) (List.tail_eq_of_cons_eq hafter)
          exact ⟨congrArg _ hnames, hrest⟩

/-- Names between angle brackets end there, and there are no brackets without names. -/
theorem angled_append_inj {ns ms : List String} (hn : ∀ n ∈ ns, IsTypeName n)
    (hm : ∀ m ∈ ms, IsTypeName m)
    (h : (angled ns).toList ++ ' ' :: rest = (angled ms).toList ++ ' ' :: rest') :
    ns = ms ∧ rest = rest' := by
  have hangled : ∀ n ns rest, (angled (n :: ns)).toList ++ ' ' :: rest =
      '<' :: ((Text.join ", " (n :: ns)).toList ++ '>' :: ' ' :: rest) := by
    intro n ns rest
    simp [angled]
  cases ns with
  | nil =>
    cases ms with
    | nil => exact ⟨rfl, List.tail_eq_of_cons_eq h⟩
    | cons m ms =>
      rw [hangled] at h
      cases h
  | cons n ns =>
    rw [hangled] at h
    cases ms with
    | nil => cases h
    | cons m ms =>
      rw [hangled] at h
      obtain ⟨hnames, hrest⟩ := join_append_inj hn hm (List.cons_ne_nil _ _)
        (List.cons_ne_nil _ _) (List.tail_eq_of_cons_eq h)
      exact ⟨hnames, List.tail_eq_of_cons_eq hrest⟩

/-! ## Whole interfaces -/

/-- What the lines of an interface without methods tell. -/
structure Shape where
  name : String
  parameters : List String
  base : Option TypeExpr
  /-- The names of the properties and their types, in order. -/
  fields : List (String × TypeExpr)

namespace Shape

/-- The interface that a shape is written as. -/
def declaration (s : Shape) (exported : Bool) : Declaration where
  name := s.name
  typeParams := s.parameters
  exported := exported
  kind := .interface s.base (s.fields.map fun f => { name := f.1, type := f.2 }) []

/-- The names in a shape hold no mark, and its types can be read back. -/
structure Readable (s : Shape) : Prop where
  name : ∀ c ∈ s.name.toList, isNameChar c = true
  parameters : ∀ p ∈ s.parameters, IsTypeName p
  base : ∀ t ∈ s.base, t.Readable
  fields : ∀ f ∈ s.fields, f.2.Readable

variable {s s' : Shape} {exported exported' : Bool}

/-- The first line after the parameters. -/
def opening : Option TypeExpr → String
  | some base => "extends " ++ base.text ++ " \x7b"
  | none => "\x7b"

/-- The lines of an interface are its head, its fields and its end. -/
theorem lines_declaration (s : Shape) (exported : Bool) :
    (s.declaration exported).lines =
      ((if exported then "export " else "") ++ "interface " ++ s.name ++ angled s.parameters ++
        " " ++ opening s.base) ::
      (s.fields.map (fun f => key f.1 ++ ": " ++ f.2.text ++ ";") ++ ["\x7d"]) := by
  refine congr (congrArg List.cons (String.toList_inj.mp ?head)) ?inside
  case head =>
    obtain ⟨name, parameters, base, fields⟩ := s
    cases base <;> cases exported <;>
      simp [declaration, Declaration.head, Declaration.modifier, opening]
  case inside =>
    simp [declaration, Declaration.inside, Property.text, optionalMark]

/-- What opens an interface tells its base. -/
theorem opening_inj {base base' : Option TypeExpr} (h : ∀ t ∈ base, t.Readable)
    (h' : ∀ t ∈ base', t.Readable) (heq : opening base = opening base') : base = base' := by
  rw [← String.toList_inj] at heq
  cases base with
  | none =>
    cases base' with
    | none => rfl
    | some t' => simp [opening] at heq
  | some t =>
    cases base' with
    | none => simp [opening] at heq
    | some t' =>
      have htext : t.text = t'.text := by simpa [opening, String.toList_inj] using heq
      rw [(h' t' rfl).eq_of_text_eq (h t rfl) htext]

private theorem field_inj {f f' : String × TypeExpr} (h : f.2.Readable) (h' : f'.2.Readable)
    (heq : key f.1 ++ ": " ++ f.2.text ++ ";" = key f'.1 ++ ": " ++ f'.2.text ++ ";") :
    f = f' := by
  rw [← String.toList_inj] at heq
  simp only [String.toList_append, List.append_assoc] at heq
  obtain ⟨hname, hafter⟩ := key_append_inj heq
  have htext : f.2.text = f'.2.text := by simpa [String.toList_inj] using hafter
  exact Prod.ext hname (h'.eq_of_text_eq h htext)

/-- The first line of an interface determines its name, its parameters and what it extends. -/
theorem eq_of_head_eq (hs : s.Readable) (hs' : s'.Readable)
    (h : (if exported then "export " else "") ++ "interface " ++ s.name ++ angled s.parameters ++
        " " ++ opening s.base =
      (if exported' then "export " else "") ++ "interface " ++ s'.name ++ angled s'.parameters ++
        " " ++ opening s'.base) :
    s.name = s'.name ∧ s.parameters = s'.parameters ∧ s.base = s'.base := by
  have hends : ∀ ns rest, EndsName ((angled ns).toList ++ ' ' :: rest) := by
    intro ns rest
    cases ns with
    | nil => exact endsName_cons (by decide)
    | cons n ns =>
      rw [angled, List.isEmpty_cons, if_neg Bool.false_ne_true, String.toList_append,
        String.toList_append]
      exact endsName_cons (by decide)
  have hrest : s.name.toList ++ ((angled s.parameters).toList ++ ' ' :: (opening s.base).toList) =
      s'.name.toList ++ ((angled s'.parameters).toList ++ ' ' :: (opening s'.base).toList) := by
    rw [← String.toList_inj] at h
    cases exported with
    | true =>
      cases exported' with
      | true => simpa using h
      | false => simp at h
    | false =>
      cases exported' with
      | true => simp at h
      | false => simpa using h
  obtain ⟨hname, hrest⟩ := append_inj_of_stops hs.name hs'.name (hends _ _) (hends _ _) hrest
  obtain ⟨hparameters, hopening⟩ := angled_append_inj hs.parameters hs'.parameters hrest
  exact ⟨String.toList_inj.mp hname, hparameters,
    opening_inj hs.base hs'.base (String.toList_inj.mp hopening)⟩

/-- The lines of the fields tell the fields. -/
theorem fields_inj {fields fields' : List (String × TypeExpr)} (h : ∀ f ∈ fields, f.2.Readable)
    (h' : ∀ f ∈ fields', f.2.Readable)
    (heq : fields.map (fun f => key f.1 ++ ": " ++ f.2.text ++ ";") =
      fields'.map fun f => key f.1 ++ ": " ++ f.2.text ++ ";") : fields = fields' := by
  induction fields generalizing fields' with
  | nil => exact (List.map_eq_nil_iff.mp heq.symm).symm
  | cons f fields ih =>
    cases fields' with
    | nil => cases heq
    | cons f' fields' =>
      rw [List.forall_mem_cons] at h h'
      obtain ⟨hfirst, hlater⟩ := List.cons_eq_cons.mp heq
      rw [field_inj h.1 h'.1 hfirst, ih h.2 h'.2 hlater]

/-- The lines of an interface without methods determine what it was written from. -/
theorem eq_of_lines_eq (hs : s.Readable) (hs' : s'.Readable)
    (h : (s.declaration exported).lines = (s'.declaration exported').lines) : s = s' := by
  rw [lines_declaration, lines_declaration] at h
  obtain ⟨hhead, hinside⟩ := List.cons_eq_cons.mp h
  obtain ⟨hname, hparameters, hbase⟩ := eq_of_head_eq hs hs' hhead
  have hfields := fields_inj hs.fields hs'.fields (List.append_cancel_right hinside)
  obtain ⟨name, parameters, base, fields⟩ := s
  obtain ⟨name', parameters', base', fields'⟩ := s'
  rw [mk.injEq]
  exact ⟨hname, hparameters, hbase, hfields⟩

end Shape

end ApiTypings.TypeScript
