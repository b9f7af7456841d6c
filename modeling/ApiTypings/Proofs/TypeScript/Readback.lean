import ApiTypings.Proofs.TypeScript.Unambiguous
import ApiTypings.Proofs.Reference.Reading

/-!
# Types are read back

What is written for a type expression derives it in the grammar, and the text has no other meaning.
Two things have no text of their own: a union of one alternative or none, and one among the
alternatives of another, which is written without parentheses. The rest is readable, if its names
are.
-/

namespace ApiTypings

namespace TypeScript

/-- No union in the expression has a union among its alternatives or fewer than two of them, every
generic type has an argument, and every name is one that a type can be known by. -/
inductive TypeExpr.Readable : TypeExpr → Prop where
  | primitive (p : Primitive) : Readable (.primitive p)
  | array {element} : Readable element → Readable (.array element)
  | union {ts} : 2 ≤ ts.length → (∀ t ∈ ts, t.isUnion = false) → (∀ t ∈ ts, Readable t) →
      Readable (.union ts)
  | record {key value} : Readable key → Readable value → Readable (.record key value)
  | ref {name} : IsTypeName name → Readable (.ref name)
  | generic {name args} : IsTypeName name → args ≠ [] → (∀ t ∈ args, Readable t) →
      Readable (.generic name args)

namespace TypeExpr.Readable

variable {t : TypeExpr} {name : String} {ts : List TypeExpr}

/-- A readable type that is no union may be null. -/
theorem orNull (h : t.Readable) (hsingle : t.isUnion = false) : t.orNull.Readable :=
  .union (Nat.le_refl _) (List.forall_mem_cons.mpr ⟨hsingle, List.forall_mem_singleton.mpr rfl⟩)
    (List.forall_mem_cons.mpr ⟨h, List.forall_mem_singleton.mpr (.primitive .null)⟩)

/-- A name with readable arguments is a readable type. -/
theorem ofName (hname : IsTypeName name) (h : ∀ t ∈ ts, t.Readable) :
    (TypeExpr.ofName name ts).Readable := by
  cases ts with
  | nil => exact .ref hname
  | cons t ts => exact .generic hname nofun h

end TypeExpr.Readable

namespace Grammar

open Reference (Stops takeWhile_append_stops dropWhile_append_stops)

variable {cs ds : List Char} {ts us : List Token}

/-! ## Words and marks -/

/-- The text does not go on with the name that stands before it. -/
abbrev EndsName (cs : List Char) : Prop := Stops isNameChar cs

private theorem tokens_blank (cs : List Char) : tokens (' ' :: cs) = tokens cs := by
  rw [tokens, if_neg (by decide), if_pos (by decide)]

private theorem not_name_of_mem_marks {c : Char} (h : c ∈ marks) :
    isNameChar c = false ∧ Text.isBlank c = false := by
  have hall : (marks.all fun c => !isNameChar c && !Text.isBlank c) = true := by decide
  simpa using List.all_eq_true.mp hall c h

/-- A mark is a token of its own. -/
theorem tokens_mark {c : Char} (h : c ∈ marks) (cs : List Char) :
    tokens (c :: cs) = (tokens cs).map (.mark c :: ·) := by
  obtain ⟨hname, hblank⟩ := not_name_of_mem_marks h
  rw [tokens, isNameStart, hname, hblank, Bool.false_and, if_neg Bool.false_ne_true,
    if_neg Bool.false_ne_true, if_pos h]

/-- A name up to its end is one token. -/
theorem tokens_name (h : isName cs = true) (hds : EndsName ds) :
    tokens (cs ++ ds) = (tokens ds).map (.word (String.ofList cs) :: ·) := by
  cases cs with
  | nil => cases h
  | cons c cs =>
    rw [isName, Bool.and_eq_true, List.all_eq_true] at h
    rw [List.cons_append, tokens, if_pos h.1, takeWhile_append_stops h.2 hds,
      dropWhile_append_stops h.2 hds]

/-- The text is cut into these tokens, whatever follows it. -/
def CutInto (cs : List Char) (ts : List Token) : Prop :=
  ∀ rest, EndsName rest → tokens (cs ++ rest) = (tokens rest).map (ts ++ ·)

private theorem cutInto_nil : CutInto [] [] := by
  intro rest _
  simp

/-- A mark is cut off on its own. -/
theorem CutInto.mark {c : Char} (hc : c ∈ marks) (h : CutInto cs ts) :
    CutInto (c :: cs) (.mark c :: ts) := by
  intro rest hrest
  rw [List.cons_append, tokens_mark hc, h rest hrest, Option.map_map]
  rfl

/-- Blanks in front are dropped. -/
theorem CutInto.blank (h : CutInto cs ts) : CutInto (' ' :: cs) ts := by
  intro rest hrest
  rw [List.cons_append, tokens_blank, h rest hrest]

private theorem cutInto_name (h : isName cs = true) : CutInto cs [.word (String.ofList cs)] :=
  fun _ hrest => tokens_name h hrest

/-- Texts are cut apart where no name goes on. -/
theorem CutInto.append (h : CutInto cs ts) (hends : EndsName ds) (h' : CutInto ds us) :
    CutInto (cs ++ ds) (ts ++ us) := by
  intro rest hrest
  have hnext : EndsName (ds ++ rest) := by
    cases ds with
    | nil => exact hrest
    | cons d ds => exact hends
  rw [List.append_assoc, h _ hnext, h' rest hrest, Option.map_map]
  simp [Function.comp_def]

/-- A name ends before any other character. -/
theorem endsName_cons {c : Char} (h : isNameChar c = false) : EndsName (c :: cs) := by
  rintro _ ⟨⟩
  exact h

private theorem CutInto.append_mark {c : Char} (h : CutInto cs ts) (hc : c ∈ marks)
    (h' : CutInto ds us) : CutInto (cs ++ c :: ds) (ts ++ .mark c :: us) :=
  h.append (endsName_cons (not_name_of_mem_marks hc).1) (.mark hc h')

/-! ## What is written derives what it is written for -/

/-- The text is cut into tokens that derive this. -/
def Derives {α : Type} (Derivation : List Token → α → Prop) (cs : List Char) (a : α) : Prop :=
  ∃ ts, CutInto cs ts ∧ Derivation ts a

variable {t : TypeExpr} {args : List TypeExpr} {name : String}

/-- An atom is an operand. -/
theorem Derives.operand (h : Derives Atom cs t) : Derives Operand cs t := by
  obtain ⟨ts, hcut, hatom⟩ := h
  have hoperand := Operand.of 0 hatom
  rw [brackets, List.append_nil] at hoperand
  exact ⟨ts, hcut, hoperand⟩

/-- An operand is a type. -/
theorem Derives.written (h : Derives Operand cs t) : Derives Written cs t := by
  obtain ⟨ts, hcut, hoperand⟩ := h
  exact ⟨ts, hcut, .of (.last hoperand)⟩

private theorem brackets_append (n : Nat) :
    brackets n ++ [.mark '[', .mark ']'] = brackets (n + 1) := by
  induction n with
  | zero => rfl
  | succ n ih => rw [brackets, List.cons_append, List.cons_append, ih, ← brackets]

private theorem array_arrays (n : Nat) (t : TypeExpr) : .array (arrays n t) = arrays (n + 1) t := by
  induction n generalizing t with
  | zero => rfl
  | succ n ih => exact ih (.array t)

/-- Brackets behind an operand make it an array. -/
theorem Derives.array (h : Derives Operand cs t) :
    Derives Operand (cs ++ ['[', ']']) (.array t) := by
  obtain ⟨_, hcut, ⟨n, hatom⟩⟩ := h
  refine ⟨_, hcut.append_mark (by decide) (.mark (by decide) cutInto_nil), ?_⟩
  rw [List.append_assoc, brackets_append, array_arrays]
  exact .of (n + 1) hatom

/-- A type in parentheses is an atom. -/
theorem Derives.group (h : Derives Written cs t) :
    Derives Atom ('(' :: (cs ++ [')'])) t := by
  obtain ⟨ts, hcut, hwritten⟩ := h
  exact ⟨_, .mark (by decide) (hcut.append_mark (by decide) cutInto_nil), .group hwritten⟩

/-- A name is an atom that denotes what the name does. -/
theorem derives_word (h : isName name.toList = true) (hdenotes : Denotes name [] t) :
    Derives Atom name.toList t := by
  have hcut := cutInto_name h
  rw [String.ofList_toList] at hcut
  exact ⟨_, hcut, .word hdenotes⟩

/-- A name with arguments is an atom that denotes the type with them. -/
theorem derives_applied (h : isName name.toList = true) (hargs : Derives Arguments cs args)
    (hdenotes : Denotes name args t) : Derives Atom (name.toList ++ '<' :: cs) t := by
  obtain ⟨ts, hcut, harguments⟩ := hargs
  have hname := cutInto_name h
  rw [String.ofList_toList] at hname
  exact ⟨_, hname.append_mark (by decide) hcut, .applied harguments hdenotes⟩

private theorem derives_operands {us : List TypeExpr} (hne : us ≠ [])
    (h : ∀ t ∈ us, Derives Operand t.text.toList t) :
    Derives Operands (Text.join " | " (us.map TypeExpr.text)).toList us := by
  induction us with
  | nil => exact absurd rfl hne
  | cons t us ih =>
    rw [List.forall_mem_cons] at h
    obtain ⟨ts, hcut, hoperand⟩ := h.1
    cases us with
    | nil => exact ⟨ts, hcut, .last hoperand⟩
    | cons u us =>
      obtain ⟨_, hcuts, hoperands⟩ := ih (List.cons_ne_nil _ _) h.2
      have hmark := hcut.append (endsName_cons (by decide))
        (.blank (.mark (c := '|') (by decide) (.blank hcuts)))
      exact ⟨_, by simpa [Text.join] using hmark, .more hoperand hoperands⟩

private theorem derives_arguments {args : List TypeExpr} (hne : args ≠ [])
    (h : ∀ t ∈ args, Derives Written t.text.toList t) :
    Derives Arguments ((Text.join ", " (args.map TypeExpr.text)).toList ++ ['>']) args := by
  induction args with
  | nil => exact absurd rfl hne
  | cons t args ih =>
    rw [List.forall_mem_cons] at h
    obtain ⟨ts, hcut, hwritten⟩ := h.1
    cases args with
    | nil =>
      exact ⟨_, hcut.append_mark (by decide) cutInto_nil, .last hwritten⟩
    | cons u args =>
      obtain ⟨_, hcuts, harguments⟩ := ih (List.cons_ne_nil _ _) h.2
      have hmark := hcut.append_mark (c := ',') (by decide) (.blank hcuts)
      exact ⟨_, by simpa [Text.join] using hmark, .more hwritten harguments⟩

end Grammar

namespace TypeExpr

open Grammar

variable {t u : TypeExpr}

/-- A readable type is derived from its text. -/
theorem Readable.derives (h : t.Readable) :
    Derives Written t.text.toList t ∧ (t.isUnion = false → Derives Operand t.text.toList t) := by
  -- Only a union is no operand of its own.
  have hoperand : ∀ {t : TypeExpr}, Derives Atom t.text.toList t →
      Derives Written t.text.toList t ∧ (t.isUnion = false → Derives Operand t.text.toList t) :=
    fun h => ⟨h.operand.written, fun _ => h.operand⟩
  induction h with
  | primitive p => exact hoperand (derives_word (by cases p <;> decide) (.primitive p))
  | @array element _ ih =>
    have harray : Derives Operand (TypeExpr.array element).text.toList (.array element) := by
      rw [text]
      split
      · have hgroup := ih.1.group.operand.array
        simpa using hgroup
      · next hunion =>
        have harray := (ih.2 (by simpa using hunion)).array
        simpa using harray
    exact ⟨harray.written, fun _ => harray⟩
  | @union ts hlen hflat _ ih =>
    have hne : ts ≠ [] := by
      rintro rfl
      exact absurd hlen (by decide)
    obtain ⟨tokens, hcut, hoperands⟩ := derives_operands hne fun t ht => (ih t ht).2 (hflat t ht)
    have hone : oneOf ts = .union ts := by
      match ts, hlen with
      | _ :: _ :: _, _ => rfl
    rw [text, texts_eq]
    exact ⟨⟨tokens, hcut, hone ▸ .of hoperands⟩, nofun⟩
  | @record key value _ _ ihkey ihvalue =>
    have hargs := derives_arguments (List.cons_ne_nil key [value])
      (List.forall_mem_cons.mpr ⟨ihkey.1, List.forall_mem_singleton.mpr ihvalue.1⟩)
    have happlied := derives_applied (show isName "Record".toList = true by decide) hargs
      (.record key value)
    exact hoperand (by simpa [text, Text.join] using happlied)
  | ref hname => exact hoperand (derives_word hname.isName (.ref hname))
  | @generic name args hname hne _ ih =>
    have hargs := derives_arguments hne fun t ht => (ih t ht).1
    have happlied := derives_applied hname.isName hargs (.generic hname hne)
    exact hoperand (by simpa [text, texts_eq] using happlied)

/-- A readable type is read from its text. -/
theorem Readable.reads (h : t.Readable) : Reads t.text t := by
  obtain ⟨ts, hcut, hwritten⟩ := h.derives.1
  refine ⟨ts, ?_, hwritten⟩
  have htokens := hcut [] (fun _ => nofun)
  rw [List.append_nil] at htokens
  rw [htokens, tokens]
  simp

/-- A type expression that can be read back has a text of its own. -/
theorem Readable.eq_of_text_eq (ht : t.Readable) (hu : u.Readable) (h : u.text = t.text) :
    u = t := by
  have hreads := hu.reads
  rw [h] at hreads
  exact hreads.unique ht.reads

/-- The text of a type expression is read as that expression and as no other, and no other
expression that can be read back has that text. -/
theorem reads_text_iff (ht : t.Readable) :
    (∀ u, Reads t.text u ↔ u = t) ∧ ∀ u : TypeExpr, u.Readable → u.text = t.text → u = t := by
  refine ⟨fun u => ⟨fun hu => hu.unique ht.reads, ?_⟩, fun u hu => ht.eq_of_text_eq hu⟩
  rintro rfl
  exact ht.reads

-- Neither kind of union that is not readable has a text of its own.
example : (union [union [ref "A", ref "B"], ref "C"]).text =
    (union [ref "A", ref "B", ref "C"]).text := by decide

example : (union [ref "A"]).text = (ref "A").text := by decide

end TypeExpr

end TypeScript

namespace Shop

open TypeScript TypeExpr

/-- A record of pages, any of which may be missing, or no record at all. -/
def visitsByDay : TypeExpr :=
  .orNull (.stringRecord (.array (.orNull
    (.generic "Page" [.array (.ref "Visit"), .orNull (.ref "Date")]))))

/-- The record is read back from its text. -/
theorem reads_visitsByDay : visitsByDay.Readable ∧
    visitsByDay.text = "Record<string, (Page<Visit[], Date | null> | null)[]> | null" ∧
    (∀ u, Reads visitsByDay.text u ↔ u = visitsByDay) ∧
    ∀ u : TypeExpr, u.Readable → u.text = visitsByDay.text → u = visitsByDay := by
  have hvisits : (array (ref "Visit")).Readable := .array (.ref (by decide))
  have hdate : (ref "Date").orNull.Readable := .orNull (.ref (by decide)) rfl
  have hpage : (generic "Page" [array (ref "Visit"), (ref "Date").orNull]).Readable :=
    .generic (by decide) (List.cons_ne_nil _ _)
      (List.forall_mem_cons.mpr ⟨hvisits, List.forall_mem_singleton.mpr hdate⟩)
  have hreadable : visitsByDay.Readable :=
    .orNull (.record (.primitive .string) (.array (.orNull hpage rfl))) rfl
  exact ⟨hreadable, by decide, reads_text_iff hreadable⟩

end Shop

end ApiTypings
