import ApiTypings.Text.Cut

/-!
# Pieces and replacements

A text is cut at every occurrence of a separator, each found from the left behind the one before;
with another text between the pieces, the occurrences are replaced. Lines with line ends behind them
are the pieces that they were joined from (`pieces_join`).
-/

namespace ApiTypings.Text

/-- The pieces between the occurrences of `sep`, each found from the left behind the one before. -/
def pieces (sep : List Char) : List Char → List (List Char)
  | [] => [[]]
  | c :: cs =>
    if sep.isPrefixOf (c :: cs) then [] :: pieces sep (cs.drop (sep.length - 1))
    else (pieces sep cs).modifyHead (c :: ·)
termination_by cs => cs.length
decreasing_by
  · rw [List.length_drop, List.length_cons]
    exact Nat.lt_succ_of_le (Nat.sub_le _ _)
  · exact Nat.lt_succ_self _

variable {start piece : List Char} {last : Char}

/-- A text that starts with the separator is cut there. -/
theorem pieces_append (start rest : List Char) (last : Char) :
    pieces (start ++ [last]) (start ++ [last] ++ rest) =
      [] :: pieces (start ++ [last]) rest := by
  cases start with
  | nil => simp [pieces]
  | cons d ds =>
    have hprefix : (d :: ds ++ [last]).isPrefixOf (d :: ds ++ [last] ++ rest) = true :=
      List.isPrefixOf_iff_prefix.mpr (List.prefix_append _ _)
    rw [List.cons_append, List.cons_append] at hprefix ⊢
    rw [pieces, if_pos hprefix]
    simp

/-- A separator that ends in `last` does not begin in a piece without that character. -/
theorem not_prefix_of_not_mem (hstart : last ∉ start) (hpiece : last ∉ piece) (hne : piece ≠ [])
    (rest : List Char) : ¬ start ++ [last] <+: piece ++ (start ++ [last] ++ rest) := by
  intro hprefix
  -- The character that ends the separator would stand before the end of `piece ++ start`.
  have hlong : (start ++ [last]).length ≤ (piece ++ start).length := by
    have hpos := List.length_pos_iff.mpr hne
    simp
    omega
  have hshort : start ++ [last] <+: piece ++ start := by
    apply List.prefix_of_prefix_length_le hprefix _ hlong
    exact ⟨[last] ++ rest, by simp⟩
  have hmem : last ∈ piece ++ start := hshort.subset (by simp)
  rcases List.mem_append.mp hmem with h | h
  · exact hpiece h
  · exact hstart h

/-- A piece ends at the first separator behind it. -/
theorem pieces_piece_append (hstart : last ∉ start) (hpiece : last ∉ piece) (rest : List Char) :
    pieces (start ++ [last]) (piece ++ (start ++ [last] ++ rest)) =
      piece :: pieces (start ++ [last]) rest := by
  induction piece with
  | nil => exact pieces_append start rest last
  | cons c piece ih =>
    have hnone := not_prefix_of_not_mem hstart hpiece (List.cons_ne_nil c piece) rest
    rw [List.cons_append] at hnone ⊢
    rw [List.mem_cons, not_or] at hpiece
    rw [pieces, if_neg (by rwa [List.isPrefixOf_iff_prefix]), ih hpiece.2]
    rfl

/-- Lines with a line end behind each are the pieces between the line ends, and nothing follows the
last of them. -/
theorem pieces_join {sep : String} (hsep : sep.toList = start ++ [last]) (hstart : last ∉ start)
    {lines : List String} (hne : lines ≠ []) (hlines : ∀ line ∈ lines, last ∉ line.toList) :
    pieces sep.toList (join sep lines ++ sep).toList = lines.map String.toList ++ [[]] := by
  have hend : pieces (start ++ [last]) [] = [[]] := by rw [pieces]
  induction lines with
  | nil => exact absurd rfl hne
  | cons line lines ih =>
    rw [List.forall_mem_cons] at hlines
    cases lines with
    | nil =>
      have hcut := pieces_piece_append hstart hlines.1 []
      rw [List.append_nil, hend] at hcut
      rw [join, String.toList_append, hsep, hcut]
      rfl
    | cons next lines =>
      have hcut := pieces_piece_append hstart hlines.1 (join sep (next :: lines) ++ sep).toList
      have hrest := ih (List.cons_ne_nil _ _) hlines.2
      rw [hsep] at hrest
      rw [hrest] at hcut
      rw [join, List.map_cons, List.cons_append, ← hcut, hsep]
      simp only [String.toList_append, hsep, List.append_assoc]

/-! ## Replacing -/

/-- `cs` with `new` in the place of `old`, wherever that is found. -/
def replace (old new cs : List Char) : List Char := List.intercalate new (pieces old cs)

variable {old new : List Char} {c : Char} {cs : List Char}

private theorem pieces_ne_nil (sep cs : List Char) : pieces sep cs ≠ [] := by
  induction cs using pieces.induct sep with
  | case1 => simp [pieces]
  | case2 c cs h ih => simp [pieces, h]
  | case3 c cs h ih => simpa [pieces, h] using ih

/-- In an empty text nothing is replaced. -/
theorem replace_nil (old new : List Char) : replace old new [] = [] := by
  simp [replace, pieces]

/-- Where the text to be replaced does not begin, a character is kept. -/
theorem replace_cons (h : ¬ old <+: c :: cs) :
    replace old new (c :: cs) = c :: replace old new cs := by
  unfold replace
  rw [pieces, if_neg (by rwa [List.isPrefixOf_iff_prefix])]
  cases hpieces : pieces old cs with
  | nil => exact absurd hpieces (pieces_ne_nil old cs)
  | cons piece rest => cases rest <;> simp

/-- What is replaced in front is replaced first. -/
theorem replace_append (start rest : List Char) (last : Char) :
    replace (start ++ [last]) new (start ++ [last] ++ rest) =
      new ++ replace (start ++ [last]) new rest := by
  unfold replace
  rw [pieces_append]
  cases hpieces : pieces (start ++ [last]) rest with
  | nil => exact absurd hpieces (pieces_ne_nil _ _)
  | cons piece rest => simp

/-- A character is replaced where it stands. -/
theorem replace_self (new cs : List Char) (c : Char) :
    replace [c] new (c :: cs) = new ++ replace [c] new cs :=
  replace_append [] cs c

/-- A text that starts differently is kept up to the next character. -/
theorem replace_of_ne {d : Char} {ds : List Char} (h : c ≠ d) :
    replace (d :: ds) new (c :: cs) = c :: replace (d :: ds) new cs := by
  apply replace_cons
  intro hprefix
  exact h (List.cons_prefix_cons.mp hprefix).1.symm

/-- What a replacement puts in starts the result only if it starts with that character. -/
theorem head_of_head_replace {d n : Char} {ns : List Char} (hne : n ≠ d)
    (h : (replace [c] (n :: ns) cs).head? = some d) : cs.head? = some d := by
  cases cs with
  | nil =>
    rw [replace_nil] at h
    cases h
  | cons e es =>
    by_cases hsame : e = c
    · rw [hsame, replace_self] at h
      exact absurd (Option.some.inj h) hne
    · rwa [replace_of_ne hsame] at h

end ApiTypings.Text
