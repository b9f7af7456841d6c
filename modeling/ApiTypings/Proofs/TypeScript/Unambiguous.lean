import ApiTypings.TypeScript.Grammar

/-!
# A text is read in one way

A part of a text that derives a type expression ends where that expression ends, as long as what
follows could not go on with it: an atom ends before anything but `<`, an operand before anything
but `<` and `[`, and a type expression before anything but these and `|`. Arguments end with a mark
of their own. So two derivations of one text agree from the inside out, and the text has one
meaning.
-/

namespace ApiTypings.TypeScript

private theorem Primitive.text_injective {p q : Primitive} (h : p.text = q.text) : p = q := by
  cases p <;> cases q <;> first | rfl | exact absurd h (by decide)

private theorem IsTypeName.ne_keyword {name : String} (h : IsTypeName name) (p : Primitive) :
    p.text ≠ name := by
  rintro rfl
  exact h.not_language (by cases p <;> decide)

private theorem IsTypeName.ne_record {name : String} (h : IsTypeName name) : "Record" ≠ name := by
  rintro rfl
  exact h.not_language (by decide)

namespace Grammar

variable {ts rest rest' : List Token} {t u : TypeExpr} {us : List TypeExpr}

/-- A word with arguments stands for one type. -/
theorem Denotes.unique {name : String} {args : List TypeExpr} (ht : Denotes name args t)
    (hu : Denotes name args u) : t = u := by
  cases ht with
  | primitive p =>
    generalize hname : p.text = name at hu
    cases hu with
    | primitive q => rw [Primitive.text_injective hname]
    | ref h => exact absurd hname (h.ne_keyword p)
    | generic h hargs => exact absurd rfl hargs
  | record key value =>
    generalize hname : "Record" = name at hu
    cases hu with
    | record => rfl
    | generic h => exact absurd hname h.ne_record
  | ref h =>
    cases hu with
    | primitive p => exact absurd rfl (h.ne_keyword p)
    | ref => rfl
    | generic _ hargs => exact absurd rfl hargs
  | generic h hargs =>
    cases hu with
    | primitive p => exact absurd rfl hargs
    | record => exact absurd rfl h.ne_record
    | ref => exact absurd rfl hargs
    | generic => rfl

/-- The first token is none of these marks. -/
def Free (closed : List Char) (ts : List Token) : Prop := ∀ c ∈ closed, ts.head? ≠ some (.mark c)

private theorem free_mark {closed : List Char} {c : Char} (h : c ∉ closed) :
    Free closed (.mark c :: ts) := by
  rintro d hd heq
  cases heq
  exact h hd

/-- What starts with none of some marks starts with none of fewer. -/
theorem Free.mono {closed opened : List Char} (h : Free opened ts)
    (hsub : ∀ c ∈ closed, c ∈ opened) : Free closed ts := fun c hc => h c (hsub c hc)

/-- No other start of a text that starts with `ts` derives anything, and `ts` derives nothing but
`a`, as long as what follows starts with none of the marks. -/
def Determined {α : Type} (Derives : List Token → α → Prop) (closed : List Char) (ts : List Token)
    (a : α) : Prop :=
  ∀ ts' a' rest rest', Derives ts' a' → Free closed rest → Free closed rest' →
    ts ++ rest = ts' ++ rest' → ts = ts' ∧ a = a' ∧ rest = rest'

private theorem Determined.before_marks {α : Type} {Derives : List Token → α → Prop}
    {closed : List Char} {ts' : List Token} {a a' : α} {c c' : Char}
    (h : Determined Derives closed ts a) (hc : c ∉ closed) (hc' : c' ∉ closed)
    (hderives : Derives ts' a') (heq : ts ++ .mark c :: rest = ts' ++ .mark c' :: rest') :
    ts = ts' ∧ a = a' ∧ c = c' ∧ rest = rest' := by
  obtain ⟨hts, ha, hrest⟩ := h _ _ _ _ hderives (free_mark hc) (free_mark hc') heq
  cases hrest
  exact ⟨hts, ha, rfl, rfl⟩

private theorem brackets_append_inj {n m : Nat}
    (hrest : Free ['['] rest) (hrest' : Free ['['] rest')
    (h : brackets n ++ rest = brackets m ++ rest') : n = m ∧ rest = rest' := by
  induction n generalizing m with
  | zero =>
    cases m with
    | zero => exact ⟨rfl, h⟩
    | succ m => exact absurd (congrArg List.head? h) (hrest '[' (List.mem_singleton_self _))
  | succ n ih =>
    cases m with
    | zero => exact absurd (congrArg List.head? h.symm) ( hrest' '[' (List.mem_singleton_self _))
    | succ m =>
      obtain ⟨rfl, hrest⟩ := ih (List.tail_eq_of_cons_eq (List.tail_eq_of_cons_eq h))
      exact ⟨rfl, hrest⟩

/-! ## One lemma for each rule -/

/-- A type is determined by its operands. -/
theorem Determined.written (ih : Determined Operands ['<', '[', '|'] ts us) :
    Determined Written ['<', '[', '|'] ts (oneOf us) := by
  rintro _ _ rest rest' ⟨hoperands⟩ hfree hfree' heq
  obtain ⟨rfl, rfl, hrest⟩ := ih _ _ rest rest' hoperands hfree hfree' heq
  exact ⟨rfl, rfl, hrest⟩

private theorem Determined.operands_last (ih : Determined Operand ['<', '['] ts t) :
    Determined Operands ['<', '[', '|'] ts [t] := by
  intro ts' us' rest rest' hoperands hfree hfree' heq
  have hafter : Free ['<', '['] rest := hfree.mono (by simp)
  cases hoperands with
  | last hoperand =>
    obtain ⟨rfl, rfl, hrest⟩ := ih _ _ rest rest' hoperand hafter (hfree'.mono (by simp)) heq
    exact ⟨rfl, rfl, hrest⟩
  | more hoperand _ =>
    rw [List.append_assoc] at heq
    obtain ⟨_, _, hrest⟩ := ih _ _ rest _ hoperand hafter (free_mark (by decide)) heq
    exact absurd (congrArg List.head? hrest) (hfree '|' (by simp))

private theorem Determined.operands_more {ts' : List Token}
    (ih : Determined Operand ['<', '['] ts t)
    (ihs : Determined Operands ['<', '[', '|'] ts' us) :
    Determined Operands ['<', '[', '|'] (ts ++ .mark '|' :: ts') (t :: us) := by
  intro _ _ rest rest' hoperands hfree hfree' heq
  rw [List.append_assoc] at heq
  cases hoperands with
  | last hoperand =>
    obtain ⟨_, _, hrest⟩ := ih _ _ _ rest' hoperand (free_mark (by decide)) (hfree'.mono (by simp))
      heq
    exact absurd (congrArg List.head? hrest.symm) ( hfree' '|' (by simp))
  | more hoperand hmore =>
    rw [List.append_assoc] at heq
    obtain ⟨rfl, rfl, _, hafter⟩ := ih.before_marks (by decide) (by decide) hoperand heq
    obtain ⟨rfl, rfl, hrest⟩ := ihs _ _ rest rest' hmore hfree hfree' hafter
    exact ⟨rfl, rfl, hrest⟩

/-- An operand is determined by its atom and its brackets. -/
theorem Determined.operand (n : Nat) (ih : Determined Atom ['<'] ts t) :
    Determined Operand ['<', '['] (ts ++ brackets n) (arrays n t) := by
  have hclosed : ∀ {k : Nat} {rest : List Token}, Free ['<', '['] rest →
      Free ['<'] (brackets k ++ rest) := by
    intro k rest hfree
    cases k with
    | zero => exact hfree.mono (by simp)
    | succ k => exact free_mark (by decide)
  rintro _ _ rest rest' ⟨m, hatom⟩ hfree hfree' heq
  rw [List.append_assoc, List.append_assoc] at heq
  obtain ⟨rfl, rfl, hrest⟩ := ih _ _ _ _ hatom (hclosed hfree) (hclosed hfree') heq
  obtain ⟨rfl, hafter⟩ := brackets_append_inj (hfree.mono (by simp)) (hfree'.mono (by simp)) hrest
  exact ⟨rfl, rfl, hafter⟩

/-- A type in parentheses is determined by the type. -/
theorem Determined.group (ih : Determined Written ['<', '[', '|'] ts t) :
    Determined Atom ['<'] (.mark '(' :: (ts ++ [.mark ')'])) t := by
  intro _ _ rest rest' hatom hfree hfree' heq
  cases hatom with
  | group hwritten =>
    rw [List.cons_append, List.cons_append, List.cons.injEq, List.append_assoc,
      List.append_assoc] at heq
    obtain ⟨rfl, rfl, _, hrest⟩ := ih.before_marks (by decide) (by decide) hwritten heq.2
    exact ⟨rfl, rfl, hrest⟩
  | word => cases heq
  | applied => cases heq

/-- A name determines what it denotes. -/
theorem Determined.word {name : String} (h : Denotes name [] t) :
    Determined Atom ['<'] [.word name] t := by
  intro _ _ rest rest' hatom hfree hfree' heq
  cases hatom with
  | group => cases heq
  | word h' =>
    cases heq
    exact ⟨rfl, h.unique h', rfl⟩
  | applied =>
    cases heq
    exact absurd rfl (hfree '<' (List.mem_singleton_self _))

/-- A name with arguments is determined by them. -/
theorem Determined.applied {name : String} (ih : Determined Arguments [] ts us)
    (h : Denotes name us t) : Determined Atom ['<'] (.word name :: .mark '<' :: ts) t := by
  intro _ _ rest rest' hatom hfree hfree' heq
  cases hatom with
  | group => cases heq
  | word =>
    cases heq
    exact absurd rfl ( hfree' '<' (List.mem_singleton_self _))
  | applied harguments h' =>
    obtain ⟨hname, hinside⟩ := List.cons_eq_cons.mp heq
    cases hname
    obtain ⟨rfl, rfl, hrest⟩ := ih _ _ rest rest' harguments (fun _ => nofun) (fun _ => nofun)
      (List.tail_eq_of_cons_eq hinside)
    exact ⟨rfl, h.unique h', hrest⟩

private theorem Determined.arguments_last (ih : Determined Written ['<', '[', '|'] ts t) :
    Determined Arguments [] (ts ++ [.mark '>']) [t] := by
  intro _ _ rest rest' harguments _ _ heq
  rw [List.append_assoc] at heq
  cases harguments with
  | last hwritten =>
    rw [List.append_assoc] at heq
    obtain ⟨rfl, rfl, _, hrest⟩ := ih.before_marks (by decide) (by decide) hwritten heq
    exact ⟨rfl, rfl, hrest⟩
  | more hwritten _ =>
    rw [List.append_assoc] at heq
    obtain ⟨_, _, hmark, _⟩ := ih.before_marks (by decide) (by decide) hwritten heq
    exact absurd hmark (by decide)

private theorem Determined.arguments_more {ts' : List Token}
    (ih : Determined Written ['<', '[', '|'] ts t) (ihs : Determined Arguments [] ts' us) :
    Determined Arguments [] (ts ++ .mark ',' :: ts') (t :: us) := by
  intro _ _ rest rest' harguments hfree hfree' heq
  rw [List.append_assoc] at heq
  cases harguments with
  | last hwritten =>
    rw [List.append_assoc] at heq
    obtain ⟨_, _, hmark, _⟩ := ih.before_marks (by decide) (by decide) hwritten heq
    exact absurd hmark (by decide)
  | more hwritten hmore =>
    rw [List.append_assoc] at heq
    obtain ⟨rfl, rfl, _, hafter⟩ := ih.before_marks (by decide) (by decide) hwritten heq
    obtain ⟨rfl, rfl, hrest⟩ := ihs _ _ rest rest' hmore hfree hfree' hafter
    exact ⟨rfl, rfl, hrest⟩

/-! ## All derivations -/

/-- No tokens are derived as two types. -/
theorem Written.determined (h : Written ts t) : Determined Written ['<', '[', '|'] ts t :=
  -- Each level has its own marks that could go on with it; only arguments close themselves.
  @Written.rec (fun ts t _ => Determined Written ['<', '[', '|'] ts t)
    (fun ts us _ => Determined Operands ['<', '[', '|'] ts us)
    (fun ts t _ => Determined Operand ['<', '['] ts t)
    (fun ts t _ => Determined Atom ['<'] ts t)
    (fun ts args _ => Determined Arguments [] ts args)
    (fun _ ih => ih.written)
    (fun _ ih => ih.operands_last)
    (fun _ _ ih ihs => ih.operands_more ihs)
    (fun n _ ih => ih.operand n)
    (fun _ ih => ih.group)
    (fun h => .word h)
    (fun _ h ih => ih.applied h)
    (fun _ ih => ih.arguments_last)
    (fun _ _ ih ihs => ih.arguments_more ihs)
    ts t h

end Grammar

/-- A text is read as one type expression at most. -/
theorem Reads.unique {text : String} {t u : TypeExpr} (ht : Reads text t) (hu : Reads text u) :
    t = u := by
  obtain ⟨ts, htokens, hwritten⟩ := ht
  obtain ⟨ts', htokens', hwritten'⟩ := hu
  rw [htokens] at htokens'
  cases htokens'
  exact (hwritten.determined ts u [] [] hwritten' (fun _ _ => nofun) (fun _ _ => nofun) rfl).2.1

end ApiTypings.TypeScript
