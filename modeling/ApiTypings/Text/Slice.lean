import ApiTypings.Text.Cut

/-!
# Slices of a text by bytes

A slice is cut out of a text at positions that count bytes of UTF-8. It exists only when each
position is a character boundary of the text and the first does not lie behind the second.
`Leaves text pos rest` says where in a text a rest of it begins; from there a slice of the text
is a part of the rest (`Leaves.sliceFrom?_eq`, `Leaves.slice?_eq`).
-/

namespace ApiTypings.Text

open String (Pos)

/-- The text from the byte `start` on, if that is a character boundary. -/
def sliceFrom? (text : String) (start : Nat) : Option (List Char) :=
  (text.pos? ⟨start⟩).map fun p => (text.sliceFrom p).copy.toList

/-- The text from the byte `start` up to the byte `stop`, if these are character boundaries in
this order. -/
def slice? (text : String) (start stop : Nat) : Option (List Char) := do
  let p ← text.pos? ⟨start⟩
  let q ← text.pos? ⟨stop⟩
  let part ← text.slice? p q
  return part.copy.toList

/-- The text is left with `rest` from the byte `pos` on. -/
def Leaves (text : String) (pos : Nat) (rest : List Char) : Prop :=
  ∃ front, text.toList = front ++ rest ∧ byteLength front = pos

/-! ## Lengths -/

private theorem byteLength_eq (cs : List Char) :
    byteLength cs = (String.ofList cs).utf8ByteSize := by
  induction cs with
  | nil => rfl
  | cons c cs ih =>
    rw [String.ofList_cons, String.utf8ByteSize_append, String.utf8ByteSize_singleton, ← ih]
    rfl

/-- The characters of a text have as many bytes as the text. -/
theorem byteLength_toList (text : String) : byteLength text.toList = text.utf8ByteSize := by
  rw [byteLength_eq, String.ofList_toList]

private theorem byteLength_append (cs ds : List Char) :
    byteLength (cs ++ ds) = byteLength cs + byteLength ds := by
  rw [byteLength_eq, byteLength_eq, byteLength_eq, String.ofList_append,
    String.utf8ByteSize_append]

/-- Every character takes at least one byte. -/
theorem byteLength_pos {cs : List Char} (h : cs ≠ []) : 0 < byteLength cs := by
  obtain ⟨c, cs, rfl⟩ := List.exists_cons_of_ne_nil h
  exact Nat.add_pos_left c.utf8Size_pos _

/-! ## Slices -/

private theorem pos?_eq_some {text : String} (p : text.Pos) : text.pos? p.offset = some p := by
  have h : p.offset.isValidForSlice text.toSlice = true := by simpa using p.isValid
  rw [String.pos?, String.Slice.pos?, dif_pos h]
  rfl

/-- Two parts of a text meet at a position of it. -/
theorem exists_splits {text : String} {front rest : List Char} (h : text.toList = front ++ rest) :
    ∃ p : text.Pos, p.offset = ⟨byteLength front⟩ ∧
      p.Splits (String.ofList front) (String.ofList rest) := by
  have happend : text = String.ofList front ++ String.ofList rest := by
    rw [← String.ofList_append, ← h, String.ofList_toList]
  have hsplits := Pos.splits_ofEqAppend happend
  refine ⟨Pos.ofEqAppend happend, ?_, hsplits⟩
  rw [hsplits.offset_eq_rawEndPos, byteLength_eq]
  rfl

namespace Leaves

variable {text : String} {pos : Nat} {run rest : List Char}

/-- The whole text is left at its start. -/
theorem zero (text : String) : Leaves text 0 text.toList := ⟨[], rfl, rfl⟩

/-- Behind a part of the rest, the text is left with what follows that part. -/
theorem append (h : Leaves text pos (run ++ rest)) : Leaves text (pos + byteLength run) rest := by
  obtain ⟨front, htext, rfl⟩ := h
  exact ⟨front ++ run, by rw [htext, List.append_assoc], byteLength_append front run⟩

/-- What is left may be taken apart at a test. -/
theorem takeWhile (h : Leaves text pos rest) (p : Char → Bool) :
    Leaves text pos (rest.takeWhile p ++ rest.dropWhile p) := by
  rwa [List.takeWhile_append_dropWhile]

/-- Behind the characters that pass a test the others are left. -/
theorem dropWhile (h : Leaves text pos rest) (p : Char → Bool) :
    Leaves text (pos + byteLength (rest.takeWhile p)) (rest.dropWhile p) :=
  (h.takeWhile p).append

/-- Behind a token the rest is left. -/
theorem token {token : String} (h : Leaves text pos (token.toList ++ rest)) :
    Leaves text (pos + token.utf8ByteSize) rest := by
  rw [← byteLength_toList]
  exact h.append

/-- A rest and what stands before it make up the text. -/
theorem add_byteLength (h : Leaves text pos rest) :
    pos + byteLength rest = text.utf8ByteSize := by
  obtain ⟨front, htext, rfl⟩ := h
  rw [← byteLength_append, ← htext, byteLength_toList]

/-- The end of the text is where nothing is left of it. -/
theorem eq_utf8ByteSize_iff (h : Leaves text pos rest) : pos = text.utf8ByteSize ↔ rest = [] := by
  have hlength := h.add_byteLength
  cases rest with
  | nil => exact iff_of_true hlength rfl
  | cons c rest =>
    have hpos := byteLength_pos (List.cons_ne_nil c rest)
    exact iff_of_false (by omega) (List.cons_ne_nil c rest)

/-- A rest begins at a character boundary. -/
theorem isValid (h : Leaves text pos rest) : (⟨pos⟩ : Pos.Raw).IsValid text := by
  obtain ⟨front, htext, rfl⟩ := h
  obtain ⟨p, hp, _⟩ := exists_splits htext
  exact hp ▸ p.isValid

/-- A slice from a position is what is left there. -/
theorem sliceFrom?_eq (h : Leaves text pos rest) : sliceFrom? text pos = some rest := by
  obtain ⟨front, htext, rfl⟩ := h
  obtain ⟨p, hp, hsplits⟩ := exists_splits htext
  rw [sliceFrom?, ← hp, pos?_eq_some, Option.map_some, hsplits.copy_sliceFrom_eq,
    String.toList_ofList]

/-- A slice between two positions is the run between them. -/
theorem slice?_eq (h : Leaves text pos (run ++ rest)) :
    slice? text pos (pos + byteLength run) = some run := by
  obtain ⟨front, htext, rfl⟩ := h
  have htext' : text.toList = (front ++ run) ++ rest := by rw [htext, List.append_assoc]
  obtain ⟨p, hp, hsplits⟩ := exists_splits htext
  obtain ⟨q, hq, hsplits'⟩ := exists_splits htext'
  rw [String.ofList_append] at hsplits hsplits'
  obtain ⟨hle, hcopy⟩ := String.copy_slice_eq_iff_splits.mpr ⟨_, _, hsplits, hsplits'⟩
  have hpart : text.slice? p q = some (text.slice p q hle) := dif_pos hle
  rw [slice?, ← byteLength_append, ← hp, ← hq, pos?_eq_some, pos?_eq_some]
  simp only [Option.bind_eq_bind, Option.bind_some, hpart, hcopy, String.toList_ofList]
  rfl

end Leaves

end ApiTypings.Text
