import ApiTypings.Layout
import ApiTypings.TypeScript.Declaration

/-!
# The layout of a file, part by part

Lines that balance their braces and have no blank at an end stand as they are at the left margin,
and the lines after them are laid out as if these were not there. A declaration begins at the left
margin with a line that trimming does not shorten, so its modifier stands before that line and
changes none of the other lines.
-/

namespace ApiTypings

namespace Text

/-- A text that ends in a character that is not blank has no trailing blanks. -/
theorem dropBlanksEnd_concat {d : Char} (hd : isBlank d = false) (cs : List Char) :
    dropBlanksEnd (cs ++ [d]) = cs ++ [d] := by
  induction cs with
  | nil =>
    rw [List.nil_append, dropBlanksEnd, dropBlanksEnd]
    simp only [hd, Bool.false_eq_true, if_false]
  | cons c cs ih =>
    rw [List.cons_append, dropBlanksEnd, ih]
    cases cs <;> rfl

/-- A text that neither starts nor ends with a blank is trimmed already. -/
theorem trimChars_of_ends {xs zs : List Char} (hx : xs.head?.any (!isBlank ·))
    (hz : zs.getLast?.any (!isBlank ·)) (ys : List Char) :
    trimChars (xs ++ ys ++ zs) = xs ++ ys ++ zs := by
  obtain ⟨c, cs, rfl⟩ : ∃ c cs, xs = c :: cs := by
    cases xs with
    | nil => cases hx
    | cons c cs => exact ⟨c, cs, rfl⟩
  obtain ⟨d, hd⟩ : ∃ d, zs.getLast? = some d := by
    cases hlast : zs.getLast? with
    | none =>
      rw [hlast] at hz
      cases hz
    | some d => exact ⟨d, rfl⟩
  obtain ⟨ds, rfl⟩ := List.getLast?_eq_some_iff.mp hd
  have hc : isBlank c = false := by simpa using hx
  have hblank : isBlank d = false := by simpa using hz
  have hdrop : dropBlanks (c :: cs ++ ys ++ (ds ++ [d])) = c :: cs ++ ys ++ (ds ++ [d]) := by
    rw [dropBlanks, List.append_assoc, List.cons_append, List.dropWhile_cons, hc]
    rfl
  rw [trimChars, hdrop, ← List.append_assoc, dropBlanksEnd_concat hblank]

end Text

namespace Layout

/-- The depth behind lines that are reached at `depth`. -/
def depthThrough (depth : Nat) (lines : List (List Char)) : Nat :=
  lines.foldl (fun depth line => depthAfter depth (Text.trimChars line)) depth

/-- Lines are laid out one part after the other, each part at the depth behind the parts before
it. -/
theorem indentFrom_append (depth : Nat) (xs ys : List (List Char)) :
    indentFrom depth (xs ++ ys) = indentFrom depth xs ++ indentFrom (depthThrough depth xs) ys := by
  induction xs generalizing depth with
  | nil => rfl
  | cons x xs ih =>
    rw [List.cons_append, indentFrom, indentFrom, ih]
    rfl

/-- Nothing is put before a line at the left margin. -/
theorem place_zero (line : List Char) : place 0 line = line := by
  cases line with
  | nil => rfl
  | cons c cs =>
    rw [place, Nat.zero_sub]
    rfl

/-- A line that the layout keeps and that changes no depth. -/
structure Inert (line : List Char) : Prop where
  trimmed : Text.trimChars line = line
  balanced : line.count '\x7b' = line.count '\x7d'

/-- An inert line leaves the depth. -/
theorem Inert.depthAfter_eq {line : List Char} (h : Inert line) (depth : Nat) :
    depthAfter depth (Text.trimChars line) = depth := by
  rw [h.trimmed, depthAfter, h.balanced, Nat.add_sub_cancel]

variable {lines : List (List Char)}

private theorem depthThrough_of_inert (h : ∀ line ∈ lines, Inert line) (depth : Nat) :
    depthThrough depth lines = depth := by
  induction lines with
  | nil => rfl
  | cons line lines ih =>
    rw [List.forall_mem_cons] at h
    rw [depthThrough, List.foldl_cons, h.1.depthAfter_eq]
    exact ih h.2

/-- Inert lines are not moved. -/
theorem indentFrom_of_inert (h : ∀ line ∈ lines, Inert line) : indentFrom 0 lines = lines := by
  induction lines with
  | nil => rfl
  | cons line lines ih =>
    rw [List.forall_mem_cons] at h
    have hplace : place 0 (Text.trimChars line) = line := by rw [place_zero, h.1.trimmed]
    change place 0 (Text.trimChars line) ::
      indentFrom (depthAfter 0 (Text.trimChars line)) lines = _
    rw [hplace, h.1.depthAfter_eq, ih h.2]

/-- The depth behind the lines of a text that starts at the left margin. -/
def depth (lines : List String) : Nat := depthThrough 0 (lines.map String.toList)

/-- Lines that close all they open may follow each other. -/
theorem depth_append {xs ys : List String} (hx : depth xs = 0) (hy : depth ys = 0) :
    depth (xs ++ ys) = 0 := by
  rw [depth, List.map_append, depthThrough, List.foldl_append]
  rw [depth, depthThrough] at hx hy
  rw [hx, hy]

/-- Behind lines that close what they open, the layout starts anew. -/
theorem indent_append {xs : List String} (h : depth xs = 0) (ys : List String) :
    indent (xs ++ ys) = indent xs ++ indent ys := by
  have hdepth : depthThrough 0 (xs.map String.toList) = 0 := h
  rw [indent, List.map_append, indentFrom_append, hdepth, List.map_append]
  rfl

/-- Lines that the layout keeps. -/
theorem indent_of_inert {lines : List String} (h : ∀ line ∈ lines, Inert line.toList) :
    indent lines = lines := by
  have hlines : ∀ line ∈ lines.map String.toList, Inert line := by
    intro line hline
    obtain ⟨s, hs, rfl⟩ := List.mem_map.mp hline
    exact h s hs
  have hofList : String.ofList ∘ String.toList = id := funext fun s => String.ofList_toList
  rw [indent, indentFrom_of_inert hlines, List.map_map, hofList, List.map_id]

/-- Inert lines leave the depth at zero. -/
theorem depth_of_inert {lines : List String} (h : ∀ line ∈ lines, Inert line.toList) :
    depth lines = 0 := by
  refine depthThrough_of_inert ?_ 0
  intro line hline
  obtain ⟨s, hs, rfl⟩ := List.mem_map.mp hline
  exact h s hs

/-- A first line that trimming does not shorten stays as it is, and what follows it depends on its
braces only. -/
theorem indent_cons {line : String} (h : Text.trimChars line.toList = line.toList)
    (lines : List String) : indent (line :: lines) = line ::
      (indentFrom (depthAfter 0 line.toList) (lines.map String.toList)).map String.ofList := by
  have hplace : place 0 (Text.trimChars line.toList) = line.toList := by rw [place_zero, h]
  rw [indent, List.map_cons, indentFrom]
  change String.ofList (place 0 (Text.trimChars line.toList)) ::
    (indentFrom (depthAfter 0 (Text.trimChars line.toList)) _).map String.ofList = _
  rw [hplace, h, String.ofList_toList]

end Layout

namespace TypeScript

/-- A laid out declaration without its modifier: its first line, and the lines after it. -/
structure Block where
  opening : String
  remaining : List String

/-- The lines of a block whose declaration has a modifier. -/
def Block.lines (modifier : String) (b : Block) : List String :=
  (modifier ++ b.opening) :: b.remaining

/-- Puts lines after earlier ones, with an empty line between. -/
def spaced (earlier lines : List String) : List String :=
  (if earlier.isEmpty then [] else earlier ++ [""]) ++ lines

/-- The lines of a laid out file: its imports, then its blocks with an empty line before each. -/
def fileLines (imports : List Import) (modifier : String) (blocks : List Block) : List String :=
  blocks.foldl (fun earlier b => spaced earlier (b.lines modifier)) (imports.map Import.text)

/-- The keyword before an exported declaration. -/
def modifierOf (exported : Bool) : String := if exported then "export " else ""

namespace Declaration

/-- The first line of a declaration up to its brace: the modifier, a keyword, and the rest. -/
theorem exists_head (d : Declaration) : ∃ keyword ∈ ["interface ", "enum ", "class "], ∃ rest,
    ∀ exported, ({ d with exported := exported } : Declaration).head =
      modifierOf exported ++ keyword ++ rest := by
  obtain ⟨name, typeParams, _, kind⟩ := d
  cases kind with
  | interface base properties methods =>
    cases base with
    | none =>
      refine ⟨"interface ", by decide, name ++ angled typeParams ++ "", fun _ => ?_⟩
      simp only [head, modifier, modifierOf, String.append_assoc]
    | some type =>
      refine ⟨"interface ", by decide, name ++ angled typeParams ++ (" extends " ++ type.text),
        fun _ => ?_⟩
      simp only [head, modifier, modifierOf, String.append_assoc]
  | enumeration members => exact ⟨"enum ", by decide, name, fun _ => rfl⟩
  | stringWrapper =>
    refine ⟨"class ", by decide, name ++ angled typeParams ++ " extends String", fun _ => ?_⟩
    simp only [head, modifier, modifierOf, String.append_assoc]
  | classType methods =>
    refine ⟨"class ", by decide, name ++ angled typeParams, fun _ => ?_⟩
    simp only [head, modifier, modifierOf, String.append_assoc]

/-- The lines of a declaration: the first one, which ends with a brace, and the others. -/
theorem exists_lines (d : Declaration) : ∃ brace ∈ [" \x7b", " \x7b\x7d"], ∃ remaining,
    ∀ exported, ({ d with exported := exported } : Declaration).lines =
      (({ d with exported := exported } : Declaration).head ++ brace) :: remaining := by
  obtain ⟨name, typeParams, _, kind⟩ := d
  cases kind with
  | interface base properties methods =>
    exact ⟨" \x7b", by decide, properties.map Property.text ++ methods.flatMap Method.lines ++
      ["\x7d"], fun _ => rfl⟩
  | enumeration members =>
    exact ⟨" \x7b", by decide, members.map (· ++ ",") ++ ["\x7d"], fun _ => rfl⟩
  | stringWrapper => exact ⟨" \x7b\x7d", by decide, [], fun _ => rfl⟩
  | classType methods =>
    exact ⟨" \x7b", by decide, methods.flatMap Method.lines ++ ["\x7d"], fun _ => rfl⟩

/-- A declaration is laid out to the same block whether it is exported or not. -/
theorem exists_block (d : Declaration) : ∃ b : Block, ∀ exported,
    Layout.indent ({ d with exported := exported } : Declaration).lines =
      b.lines (modifierOf exported) := by
  obtain ⟨keyword, hkeyword, rest, hhead⟩ := exists_head d
  obtain ⟨brace, hbrace, remaining, hlines⟩ := exists_lines d
  have hstart : ∀ keyword ∈ ["interface ", "enum ", "class "], ∀ exported,
      (modifierOf exported ++ keyword).toList.head?.any (!Text.isBlank ·) := by
    decide
  have hend : ∀ brace ∈ [" \x7b", " \x7b\x7d"],
      brace.toList.getLast?.any (!Text.isBlank ·) := by
    decide
  have hdepth : ∀ exported (line : String),
      Layout.depthAfter 0 (modifierOf exported ++ line).toList =
        Layout.depthAfter 0 line.toList := by
    intro exported line
    cases exported <;> simp [modifierOf, Layout.depthAfter]
  refine ⟨⟨keyword ++ rest ++ brace, (Layout.indentFrom (Layout.depthAfter 0
    (keyword ++ rest ++ brace).toList) (remaining.map String.toList)).map String.ofList⟩, ?_⟩
  intro exported
  have htrim := Text.trimChars_of_ends (hstart keyword hkeyword exported) (hend brace hbrace)
    rest.toList
  rw [← String.toList_append, ← String.toList_append] at htrim
  rw [hlines, hhead, Layout.indent_cons htrim, Block.lines]
  simp only [String.append_assoc] at hdepth ⊢
  rw [hdepth]

end Declaration

namespace SourceFile

/-- A declaration after lines that close what they open. -/
theorem indent_append {earlier : List String} (h : Layout.depth earlier = 0) (d : Declaration) :
    Layout.indent (append earlier d) = spaced (Layout.indent earlier) (Layout.indent d.lines) := by
  cases earlier with
  | nil => rfl
  | cons line lines =>
    have hdepth : Layout.depth (line :: lines ++ [""]) = 0 := Layout.depth_append h rfl
    rw [append, List.isEmpty_cons, if_neg Bool.false_ne_true, Layout.indent_append hdepth,
      Layout.indent_append h, spaced, Layout.indent, List.map_cons, Layout.indentFrom]
    rfl

end SourceFile

end TypeScript

end ApiTypings
