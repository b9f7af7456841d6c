import ApiTypings.Json.Reader

/-!
# Rules of the reader of documents

Each reader returns its rest together with a proof that the rest is shorter. The rules below leave
that proof out and say what a reader makes of a value, of the items of an array and of the fields of
an object from what it makes of their parts.
-/

namespace ApiTypings.Json

/-- What a reader has read is `a`, and what it leaves is `rest`. -/
def Gives {α : Type} {cs : List Char} (read : Option (α × Text.Remainder cs)) (a : α)
    (rest : List Char) : Prop :=
  read.map (fun x => (x.1, x.2.1)) = some (a, rest)

private theorem Gives.eq_some {α : Type} {cs rest : List Char} {a : α}
    {read : Option (α × Text.Remainder cs)} (h : Gives read a rest) :
    ∃ hlt, read = some (a, ⟨rest, hlt⟩) := by
  cases read with
  | none => cases h
  | some x =>
    cases h
    exact ⟨x.2.2, rfl⟩

/-- A text with nothing behind its value is read as the value. -/
theorem read_of_gives {text : String} {cs rest : List Char} {v : Value} (htext : text.toList = cs)
    (h : Gives (readValue cs) v rest) (hend : skip rest = []) : read text = some v := by
  subst htext
  obtain ⟨hlt, h⟩ := h.eq_some
  rw [read, h]
  exact if_pos hend

variable {cs inside after rest : List Char} {v : Value} {vs : List Value}
  {fields : List (Option String × Value)} {pieces : List Piece} {text : Option String}

/-! ## Values -/

/-- A value that opens no array or object is read on its own. -/
theorem gives_scalar {c : Char} (hcs : skip cs = c :: after) (harray : c ≠ '[')
    (hobject : c ≠ '\x7b') (hlt : rest.length < cs.length)
    (h : readScalar (c :: after) = some (v, rest)) : Gives (readValue cs) v rest := by
  rw [readValue]
  split
  · next heq => exact absurd (List.cons.inj (hcs.symm.trans heq)).1 harray
  · next heq => exact absurd (List.cons.inj (hcs.symm.trans heq)).1 hobject
  · rw [hcs, h]
    simp [Gives, Text.remainder?, hlt]

/-- A string is read piece by piece. -/
theorem gives_string (h : readPieces inside = some (pieces, rest)) (htext : textOf pieces = text) :
    Gives (readValue ('"' :: inside)) (.string text) rest := by
  subst htext
  have hlt := length_of_readPieces h
  refine gives_scalar rfl (by decide) (by decide) (Nat.lt_succ_of_lt hlt) ?_
  rw [readScalar, h]
  rfl

/-- An array that closes at once is empty. -/
theorem gives_emptyArray (hcs : skip cs = '[' :: inside) (hend : skip inside = ']' :: rest) :
    Gives (readValue cs) (.array []) rest := by
  rw [readValue]
  split
  · next heq =>
    obtain rfl := (List.cons.inj (hcs.symm.trans heq)).2
    split
    · next heq =>
      obtain rfl := (List.cons.inj (hend.symm.trans heq)).2
      rfl
    · next hne => exact absurd hend (hne rest)
  · next heq => simp [hcs] at heq
  · next hne _ => exact absurd hcs (hne inside)

/-- An array is read item by item. -/
theorem gives_array (hcs : skip cs = '[' :: inside) (hend : ∀ rest, skip inside ≠ ']' :: rest)
    (h : Gives (readItems inside) vs rest) : Gives (readValue cs) (.array vs) rest := by
  obtain ⟨hlt, h⟩ := h.eq_some
  rw [readValue]
  split
  · next heq =>
    obtain rfl := (List.cons.inj (hcs.symm.trans heq)).2
    split
    · next heq => exact absurd heq (hend _)
    · rw [h]
      rfl
  · next heq => simp [hcs] at heq
  · next hne _ => exact absurd hcs (hne inside)

/-- An object is read field by field. -/
theorem gives_object (hcs : skip cs = '\x7b' :: inside)
    (hend : ∀ rest, skip inside ≠ '\x7d' :: rest) (h : Gives (readFields inside) fields rest) :
    Gives (readValue cs) (.object fields) rest := by
  obtain ⟨hlt, h⟩ := h.eq_some
  rw [readValue]
  split
  · next heq => simp [hcs] at heq
  · next heq =>
    obtain rfl := (List.cons.inj (hcs.symm.trans heq)).2
    split
    · next heq => exact absurd heq (hend _)
    · rw [h]
      rfl
  · next hne => exact absurd hcs (hne inside)

/-! ## Items and fields -/

/-- An item is the last or has more after it. -/
theorem gives_items (h : Gives (readValue cs) v after)
    (htail : (skip after = ']' :: rest ∧ vs = []) ∨
      ∃ more, skip after = ',' :: more ∧ Gives (readItems more) vs rest) :
    Gives (readItems cs) (v :: vs) rest := by
  obtain ⟨hlt, h⟩ := h.eq_some
  rw [readItems]
  split
  · next hnone => simp [h] at hnone
  · next hsome =>
    rw [h] at hsome
    cases hsome
    obtain ⟨hend, rfl⟩ | ⟨more, hcomma, hvs⟩ := htail
    · split
      · next heq => simp [hend] at heq
      · next heq =>
        obtain rfl := (List.cons.inj (hend.symm.trans heq)).2
        rfl
      · next hne => exact absurd hend (hne rest)
    · obtain ⟨hlt', hvs⟩ := hvs.eq_some
      split
      · next heq =>
        obtain rfl := (List.cons.inj (hcomma.symm.trans heq)).2
        rw [hvs]
        rfl
      · next heq => simp [hcomma] at heq
      · next hne _ => exact absurd hcomma (hne more)

/-- A field is the last or has more after it. -/
theorem gives_fields {name value : List Char} (hcs : skip cs = '"' :: name)
    (hname : readPieces name = some (pieces, inside)) (htext : textOf pieces = text)
    (hcolon : skip inside = ':' :: value)
    (h : Gives (readValue value) v after)
    (htail : (skip after = '}' :: rest ∧ fields = []) ∨
      ∃ more, skip after = ',' :: more ∧ Gives (readFields more) fields rest) :
    Gives (readFields cs) ((text, v) :: fields) rest := by
  subst htext
  obtain ⟨hlt, h⟩ := h.eq_some
  rw [readFields]
  split
  next heq =>
    obtain rfl := (List.cons.inj (hcs.symm.trans heq)).2
    split
    next hnone => simp [hname] at hnone
    next hsome =>
      rw [hname] at hsome
      cases hsome
      split
      next heq =>
        obtain rfl := (List.cons.inj (hcolon.symm.trans heq)).2
        split
        next hnone => simp [h] at hnone
        next hsome =>
          rw [h] at hsome
          cases hsome
          obtain ⟨hend, rfl⟩ | ⟨more, hcomma, hfields⟩ := htail
          · split
            · next heq => simp [hend] at heq
            · next heq =>
              obtain rfl := (List.cons.inj (hend.symm.trans heq)).2
              rfl
            · next hne => exact absurd hend (hne rest)
          · obtain ⟨hlt', hfields⟩ := hfields.eq_some
            split
            · next heq =>
              obtain rfl := (List.cons.inj (hcomma.symm.trans heq)).2
              rw [hfields]
              rfl
            · next heq => simp [hcomma] at heq
            · next hne _ => exact absurd hcomma (hne more)
      next hne => exact absurd hcolon (hne value)
  next hne => exact absurd hcs (hne name)

end ApiTypings.Json
