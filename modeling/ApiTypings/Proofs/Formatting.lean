import ApiTypings.Proofs.Trimming
import ApiTypings.Text.Pieces
import Mathlib.Data.List.Forall2

/-!
# Formatting only re-indents

The layout puts spaces before the trimmed lines and changes nothing else. It sees a line only
through its trimmed form, and indented lines are trimmed to what they were made from, so indenting
them again gives the same lines. The lines of a file are the pieces between its line ends: each line
end has a line feed in its last place only, and no line holds one.
-/

namespace ApiTypings

namespace Layout

/-! ## Line by line -/

private theorem isBlank_of_mem_indentation {level : Nat} :
    ∀ c ∈ indentation level, Text.isBlank c = true := by
  intro c hc
  rw [List.eq_of_mem_replicate hc]
  decide

private theorem trimChars_place (depth : Nat) (line : List Char) :
    Text.trimChars (place depth (Text.trimChars line)) = Text.trimChars line := by
  unfold place
  split
  · next hempty =>
    rw [List.isEmpty_iff.mp hempty]
    rfl
  · rw [Text.trimChars_blanks_append isBlank_of_mem_indentation, Text.trimChars_idempotent]

private theorem map_trimChars_indentFrom (depth : Nat) (lines : List (List Char)) :
    (indentFrom depth lines).map Text.trimChars = lines.map Text.trimChars := by
  induction lines generalizing depth with
  | nil => rfl
  | cons line lines ih =>
    rw [indentFrom, List.map_cons, List.map_cons, trimChars_place, ih]

/-- The layout sees nothing of a line but its trimmed form. -/
theorem indentFrom_congr (depth : Nat) {lines lines' : List (List Char)}
    (h : lines.map Text.trimChars = lines'.map Text.trimChars) :
    indentFrom depth lines = indentFrom depth lines' := by
  induction lines generalizing depth lines' with
  | nil => rw [List.map_eq_nil_iff.mp h.symm]
  | cons line lines ih =>
    cases lines' with
    | nil => cases h
    | cons line' lines' =>
      obtain ⟨hline, hlines⟩ := List.cons_eq_cons.mp h
      rw [indentFrom, indentFrom, hline, ih _ hlines]

/-- Only spaces are put into a line. -/
theorem mem_of_mem_indentFrom {depth : Nat} {lines : List (List Char)} {result : List Char}
    {c : Char} (hresult : result ∈ indentFrom depth lines) (hc : c ∈ result) :
    c = ' ' ∨ ∃ line ∈ lines, c ∈ line := by
  induction lines generalizing depth with
  | nil => cases hresult
  | cons line lines ih =>
    rw [indentFrom, List.mem_cons] at hresult
    rcases hresult with rfl | hresult
    · unfold place at hc
      split at hc
      · cases hc
      · rcases List.mem_append.mp hc with hspace | hmem
        · exact .inl (List.eq_of_mem_replicate hspace)
        · exact .inr ⟨line, List.mem_cons_self, Text.trimChars_subset line hmem⟩
    · rcases ih hresult with hspace | ⟨source, hsource, hmem⟩
      · exact .inl hspace
      · exact .inr ⟨source, List.mem_cons_of_mem _ hsource, hmem⟩

/-- A line of the result beside the line it was made from. -/
structure Reindents (line result : String) : Prop where
  blank : (∀ c ∈ line.toList, Text.isBlank c = true) → result = ""
  indented : (∃ c ∈ line.toList, Text.isBlank c = false) →
    ∃ level, result = String.ofList (List.replicate (4 * level) ' ') ++ Text.trim line

private theorem reindents_place (depth : Nat) (line : String) :
    Reindents line (String.ofList (place depth (Text.trimChars line.toList))) where
  blank := by
    intro hblank
    rw [Text.trimChars_eq_nil_iff.mpr hblank]
    rfl
  indented := by
    rintro ⟨c, hmem, hc⟩
    have hne : Text.trimChars line.toList ≠ [] := by
      intro hnil
      rw [Text.trimChars_eq_nil_iff.mp hnil c hmem] at hc
      cases hc
    refine ⟨depth - leadingCloses (Text.trimChars line.toList), ?_⟩
    rw [place, if_neg (by simpa using hne), String.ofList_append]
    rfl

private theorem forall₂_indentFrom (depth : Nat) (lines : List String) :
    List.Forall₂ Reindents lines
      ((indentFrom depth (lines.map String.toList)).map String.ofList) := by
  induction lines generalizing depth with
  | nil => exact .nil
  | cons line lines ih => exact .cons (reindents_place depth line) (ih _)

/-! ## Whole texts -/

private theorem map_toList_indent (lines : List String) :
    (indent lines).map String.toList = indentFrom 0 (lines.map String.toList) := by
  rw [indent, List.map_map]
  exact List.map_id'' (fun cs => String.toList_ofList) _

/-- Lines that are trimmed to the same text are laid out alike. -/
theorem indent_congr {lines lines' : List String}
    (h : lines.map Text.trim = lines'.map Text.trim) : indent lines = indent lines' := by
  have htrim : ∀ lines : List String,
      (lines.map String.toList).map Text.trimChars = (lines.map Text.trim).map String.toList := by
    intro lines
    simp [Function.comp_def, Text.trim]
  have hsame : (lines.map String.toList).map Text.trimChars =
      (lines'.map String.toList).map Text.trimChars := by
    rw [htrim, htrim, h]
  unfold indent
  rw [indentFrom_congr 0 hsame]

/-- Indenting twice is indenting once. -/
theorem indent_indent (lines : List String) : indent (indent lines) = indent lines := by
  have htrim := map_trimChars_indentFrom 0 (lines.map String.toList)
  rw [← map_toList_indent] at htrim
  rw [indent, indentFrom_congr 0 htrim]
  rfl

/-- A text is cut into its lines again at its line ends. -/
theorem pieces_format {lines : List String} (hne : lines ≠ [])
    (h : ∀ line ∈ lines, '\n' ∉ line.toList) (newline : Newline) :
    (Text.pieces newline.text.toList (format lines newline).toList).map String.ofList =
      indent lines ++ [""] := by
  have hlines : ∀ line ∈ indent lines, '\n' ∉ line.toList := by
    intro line hline hmem
    rw [indent, List.mem_map] at hline
    obtain ⟨result, hresult, rfl⟩ := hline
    rw [String.toList_ofList] at hmem
    rcases mem_of_mem_indentFrom hresult hmem with hspace | ⟨source, hsource, hmem⟩
    · cases hspace
    · obtain ⟨line, hline, rfl⟩ := List.mem_map.mp hsource
      exact h line hline hmem
  have hindent : indent lines ≠ [] := by
    apply List.ne_nil_of_length_pos
    rw [length_indent]
    exact List.length_pos_of_ne_nil hne
  obtain ⟨start, hstart, hsep⟩ :
      ∃ start, '\n' ∉ start ∧ newline.text.toList = start ++ ['\n'] := by
    cases newline with
    | lf => exact ⟨[], by simp, rfl⟩
    | crlf => exact ⟨['\r'], by simp, rfl⟩
  rw [format, Text.pieces_join hsep hstart hindent hlines, List.map_append, List.map_map]
  simp [Function.comp_def]

/-- Formatting puts each line, trimmed, behind a multiple of four spaces and ends it. -/
theorem format_reindents (lines : List String) :
    (indent lines).length = lines.length ∧
      List.Forall₂ Reindents lines (indent lines) ∧
      (∀ lines', lines.map Text.trim = lines'.map Text.trim → indent lines = indent lines') ∧
      indent (indent lines) = indent lines ∧
      (lines ≠ [] → (∀ line ∈ lines, '\n' ∉ line.toList) → ∀ newline : Newline,
        (Text.pieces newline.text.toList (format lines newline).toList).map String.ofList =
          indent lines ++ [""]) :=
  ⟨length_indent lines, forall₂_indentFrom 0 lines, fun _ => indent_congr, indent_indent lines,
    pieces_format⟩

end Layout

end ApiTypings
