import ApiTypings.Proofs.Trimming
import ApiTypings.Proofs.TypeScript.Braces

/-!
# Indentation follows the structure

The layout knows nothing of declarations and methods, it counts braces. Where no atom of a file
holds a brace, the count follows the structure: a first line opens one brace, its last line closes
that brace, and the lines between leave the depth that they are reached at. So every line stands at
the level that it has in the outline of the file, and no line closes a brace that is not open.
-/

namespace ApiTypings

namespace Layout

variable {depth n : Nat} {line : List Char} {xs ys : List (Nat × String)}

/-- No line closes more braces than are open where it is reached. -/
def Unclamped (depth : Nat) : List (List Char) → Prop
  | [] => True
  | line :: lines =>
    leadingCloses (Text.trimChars line) ≤ depth ∧
      (Text.trimChars line).count '\x7d' ≤ depth + (Text.trimChars line).count '\x7b' ∧
      Unclamped (depthAfter depth (Text.trimChars line)) lines

private theorem unclamped_append {lines lines' : List (List Char)} :
    Unclamped depth (lines ++ lines') ↔
      Unclamped depth lines ∧ Unclamped (depthThrough depth lines) lines' := by
  induction lines generalizing depth with
  | nil => simp [Unclamped, depthThrough]
  | cons line lines ih =>
    rw [List.cons_append, Unclamped, Unclamped, ih, depthThrough, depthThrough, List.foldl_cons]
    tauto

/-- The lines of an outline. -/
def chars (outline : List (Nat × String)) : List (List Char) := outline.map fun l => l.2.toList

/-- Lines that stand at their levels when they are reached at `depth`, and leave that depth. -/
structure Laid (depth : Nat) (outline : List (Nat × String)) : Prop where
  levels : indentFrom depth (chars outline) =
    outline.map fun l => indentation l.1 ++ Text.trimChars l.2.toList
  unclamped : Unclamped depth (chars outline)
  settled : depthThrough depth (chars outline) = depth

/-- An empty list of lines is laid out at any depth. -/
theorem Laid.nil : Laid depth [] := ⟨rfl, trivial, rfl⟩

/-- Lines are laid out one behind the other. -/
theorem Laid.append (hx : Laid depth xs) (hy : Laid depth ys) : Laid depth (xs ++ ys) := by
  have hchars : chars (xs ++ ys) = chars xs ++ chars ys := List.map_append
  refine ⟨?_, ?_, ?_⟩
  · rw [hchars, indentFrom_append, hx.settled, hx.levels, hy.levels, List.map_append]
  · rw [hchars, unclamped_append, hx.settled]
    exact ⟨hx.unclamped, hy.unclamped⟩
  · have hx' := hx.settled
    have hy' := hy.settled
    unfold depthThrough at *
    rw [hchars, List.foldl_append, hx', hy']

/-- Lines are laid out in groups. -/
theorem Laid.flatMap {α : Type} {f : α → List (Nat × String)} {as : List α}
    (h : ∀ a ∈ as, Laid depth (f a)) : Laid depth (as.flatMap f) := by
  induction as with
  | nil => exact .nil
  | cons a as ih =>
    rw [List.forall_mem_cons] at h
    exact h.1.append (ih h.2)

/-- Lines are laid out one by one. -/
theorem Laid.map {α : Type} {f : α → Nat × String} {as : List α}
    (h : ∀ a ∈ as, Laid depth [f a]) : Laid depth (as.map f) := by
  rw [List.map_eq_flatMap]
  exact .flatMap h

/-- A line that does not start with a closing brace and opens `n` braces more than it closes. -/
structure Opens (n : Nat) (line : List Char) : Prop where
  content : Text.trimChars line ≠ []
  start : leadingCloses (Text.trimChars line) = 0
  count : line.count '\x7b' = line.count '\x7d' + n

/-- Trimming takes no braces away. -/
theorem Opens.count_trimChars (h : Opens n line) :
    (Text.trimChars line).count '\x7b' = (Text.trimChars line).count '\x7d' + n := by
  rw [Text.count_trimChars (by decide), Text.count_trimChars (by decide), h.count]

/-- A line that opens is placed at the depth it starts at. -/
theorem Opens.place_eq (h : Opens n line) (depth : Nat) :
    place depth (Text.trimChars line) = indentation depth ++ Text.trimChars line := by
  rw [place, if_neg (by simpa using h.content), h.start, Nat.sub_zero]

/-- A line that opens ends as much deeper. -/
theorem Opens.depthAfter_eq (h : Opens n line) (depth : Nat) :
    depthAfter depth (Text.trimChars line) = depth + n := by
  have hcount := h.count_trimChars
  unfold depthAfter
  omega

/-- The lines after a line that opens braces are reached so much deeper. -/
theorem Opens.unclamped_cons (h : Opens n line) {lines : List (List Char)} :
    Unclamped depth (line :: lines) ↔ Unclamped (depth + n) lines := by
  have hcount := h.count_trimChars
  have hstart := h.start
  rw [Unclamped, h.depthAfter_eq]
  refine ⟨fun hlines => hlines.2.2, fun hlines => ⟨?_, ?_, hlines⟩⟩ <;> omega

/-- A line that opens nothing is laid out at its depth. -/
theorem Laid.single {s : String} (h : Opens 0 s.toList) : Laid depth [(depth, s)] where
  levels := by
    change [place depth (Text.trimChars s.toList)] = _
    rw [h.place_eq]
    rfl
  unclamped := h.unclamped_cons.mpr trivial
  settled := h.depthAfter_eq depth

/-- The empty line between two declarations. -/
theorem Laid.empty : Laid depth [(0, "")] := ⟨rfl, ⟨Nat.zero_le _, Nat.zero_le _, trivial⟩, rfl⟩

/-- What a brace is opened and closed around stands one level further in. -/
theorem Laid.block {head : String} (hhead : Opens 1 head.toList) (h : Laid (depth + 1) xs) :
    Laid depth ([(depth, head)] ++ xs ++ [(depth, "\x7d")]) := by
  have hchars : chars ([(depth, head)] ++ xs ++ [(depth, "\x7d")]) =
      head.toList :: (chars xs ++ [['\x7d']]) := by
    simp [chars]
  have hclose : indentFrom (depth + 1) [['\x7d']] = [indentation depth ++ ['\x7d']] := rfl
  have htrim : Text.trimChars "\x7d".toList = ['\x7d'] := by decide
  have hthrough := h.settled
  refine ⟨?_, ?_, ?_⟩
  · rw [hchars, indentFrom, hhead.place_eq, hhead.depthAfter_eq, indentFrom_append, h.levels,
      h.settled, hclose, List.map_append, List.map_append, List.map_singleton, List.map_singleton,
      htrim]
    rfl
  · rw [hchars, hhead.unclamped_cons, unclamped_append, h.settled]
    refine ⟨h.unclamped, ?_, ?_, trivial⟩
    · exact Nat.le_add_left 1 depth
    · exact Nat.le_add_left 1 (depth + 0)
  · unfold depthThrough at hthrough ⊢
    rw [hchars, List.foldl_cons, hhead.depthAfter_eq, List.foldl_append, hthrough]
    rfl

/-! ## Kinds of lines -/

private theorem leadingCloses_eq_zero (h : line.head? ≠ some '\x7d') : leadingCloses line = 0 := by
  cases line with
  | nil => rfl
  | cons c cs =>
    have hc : (c == '\x7d') = false := by simpa using h
    rw [leadingCloses, List.takeWhile_cons, hc]
    rfl

private theorem trimChars_ne_nil {c : Char} (hmem : c ∈ line) (hc : Text.isBlank c = false) :
    Text.trimChars line ≠ [] := by
  intro hnil
  rw [Text.trimChars_eq_nil_iff.mp hnil c hmem] at hc
  cases hc

/-- A line that the layout keeps and that does not start with a closing brace. -/
theorem Inert.opens (h : Inert line) {c : Char} (hhead : line.head? = some c)
    (hc : c ≠ '\x7d') : Opens 0 line where
  content := by
    rw [h.trimmed]
    rintro rfl
    cases hhead
  start := by
    rw [h.trimmed]
    apply leadingCloses_eq_zero
    rw [hhead]
    simpa using hc
  count := h.balanced

/-- A line in which a brace is opened before one is closed. -/
theorem opens_append_cons {before after : List Char} (hbefore : '\x7d' ∉ before)
    (hcount : (before ++ '\x7b' :: after).count '\x7b' =
      (before ++ '\x7b' :: after).count '\x7d' + n) :
    Opens n (before ++ '\x7b' :: after) where
  content := trimChars_ne_nil (c := '\x7b') (by simp) (by decide)
  start := by
    obtain ⟨blanks, rest, heq, hblanks, -⟩ := Text.exists_trimChars (before ++ '\x7b' :: after)
    apply leadingCloses_eq_zero
    intro hhead
    obtain ⟨cs, hcs⟩ := List.head?_eq_some_iff.mp hhead
    rw [hcs, List.append_assoc, List.cons_append, List.append_eq_append_iff] at heq
    rcases heq with ⟨more, hmore, heq⟩ | ⟨more, hmore, heq⟩
    · -- The opening brace is not among the blanks.
      cases more with
      | nil => cases heq
      | cons d more =>
        obtain ⟨rfl, -⟩ := List.cons_eq_cons.mp heq
        have hblank := hblanks '\x7b' (by rw [hmore]; simp)
        exact absurd hblank (by decide)
    · cases more with
      | nil => cases heq
      | cons d more =>
        obtain ⟨rfl, -⟩ := List.cons_eq_cons.mp heq
        exact hbefore (by rw [hmore]; simp)
  count := hcount

end Layout

namespace TypeScript

open Layout (Laid Opens)

variable {s : String}

private theorem opens_of_braceless (h : Braceless s) {c : Char} (hmem : c ∈ s.toList)
    (hc : Text.isBlank c = false) : Opens 0 s.toList where
  content := Layout.trimChars_ne_nil hmem hc
  start := by
    apply Layout.leadingCloses_eq_zero
    intro hhead
    exact h.2 (Text.trimChars_subset _ (List.mem_of_head? hhead))
  count := h.balanced

private theorem opens_head (h : Braceless s) : Opens 1 (s ++ " \x7b").toList := by
  have hline : (s ++ " \x7b").toList = (s ++ " ").toList ++ '\x7b' :: [] := by simp
  have hblank := h.append (show Braceless " " by decide)
  rw [hline]
  apply Layout.opens_append_cons hblank.2
  rw [List.count_append, List.count_append, hblank.balanced]
  rfl

private theorem opens_empty (h : Braceless s) : Opens 0 (s ++ " \x7b\x7d").toList := by
  have hline : (s ++ " \x7b\x7d").toList = (s ++ " ").toList ++ '\x7b' :: ['\x7d'] := by simp
  have hblank := h.append (show Braceless " " by decide)
  rw [hline]
  apply Layout.opens_append_cons hblank.2
  rw [List.count_append, List.count_append, hblank.balanced]
  rfl

private theorem opens_statement {statement : Statement} (h : ∀ s ∈ statement.atoms, Braceless s) :
    Opens 0 statement.text.toList := by
  obtain ⟨value⟩ := statement
  have hbalanced :=
    (Expr.balanced_text value h).between (show Balanced ("return " ++ ";") by decide)
  have hinert := inert_between (by decide) (by decide) hbalanced
  have hhead : ("return " ++ value.text ++ ";").toList.head? = some 'r' := by simp
  exact hinert.opens hhead (by decide)

/-- A property has no braces of its own. -/
theorem braceless_property {p : Property} (h : ∀ s ∈ p.atoms, Braceless s) :
    Braceless p.text := by
  rw [Property.atoms, List.forall_mem_cons] at h
  have hkey := (braceless_key h.1).append (braceless_optionalMark p.optional)
  exact ((hkey.append (by decide)).append (TypeExpr.braceless_text _ h.2)).append (by decide)

private theorem braceless_parameter {p : Parameter} (h : ∀ s ∈ p.atoms, Braceless s) :
    Braceless p.text := by
  rw [Parameter.atoms, List.forall_mem_cons] at h
  have hname := h.1.append (braceless_optionalMark p.optional)
  exact (hname.append (by decide)).append (TypeExpr.braceless_text _ h.2)

namespace Method

variable {m : Method}

/-- A signature has no braces of its own. -/
theorem braceless_signature (h : ∀ s ∈ m.atoms, Braceless s) : Braceless m.signature := by
  simp only [Method.atoms, List.forall_mem_append, List.forall_mem_cons, List.forall_mem_flatMap]
    at h
  obtain ⟨⟨⟨⟨hname, htypeParams⟩, hparams⟩, hresult⟩, -⟩ := h
  have hmodifier : Braceless (if m.isPublic then "public " else "") := by
    cases m.isPublic <;> decide
  have hnames := (hmodifier.append hname).append (braceless_angled htypeParams)
  have hjoined : Braceless (Text.join ", " (m.params.map Parameter.text)) := by
    apply Braceless.join (by decide)
    rw [List.forall_mem_map]
    exact fun p hp => braceless_parameter (hparams p hp)
  have hparens := ((hnames.append (t := "(") (by decide)).append hjoined).append (t := ")")
    (by decide)
  unfold signature
  cases hm : m.result with
  | none => exact hparens.append (by decide)
  | some type =>
    rw [hm] at hresult
    have htype := TypeExpr.braceless_text type (hresult type (List.mem_singleton_self type))
    exact hparens.append (Braceless.append (by decide) htype)

/-- The lines of a method stand at their levels wherever one brace is open. -/
theorem laid_outline (h : ∀ s ∈ m.atoms, Braceless s) : Laid 1 m.outline := by
  have hsignature := braceless_signature h
  unfold outline
  split
  · have hline : ';' ∈ (m.signature ++ ";").toList := by simp
    exact .single (opens_of_braceless (hsignature.append (by decide)) hline (by decide))
  · exact .single (opens_empty hsignature)
  · next body _ hbody =>
    refine .block (opens_head hsignature) (.map fun statement hmem => ?_)
    refine .single (opens_statement fun s hs => h s ?_)
    rw [atoms, List.mem_append, hbody]
    exact .inr (List.mem_flatMap.mpr ⟨statement, hmem, hs⟩)

/-- The outline of a method has its lines. -/
theorem lines_eq_outline (m : Method) : m.outline.map Prod.snd = m.lines := by
  unfold outline lines
  cases hbody : m.body with
  | none => rfl
  | some body =>
    cases body with
    | nil => rfl
    | cons statement body => simp [Function.comp_def]

end Method

namespace Declaration

variable {d : Declaration}

private theorem braceless_head (h : ∀ s ∈ d.atoms, Braceless s) : Braceless d.head := by
  rw [atoms, List.forall_mem_append, List.forall_mem_cons] at h
  obtain ⟨⟨hname, htypeParams⟩, hkind⟩ := h
  have hmodifier : Braceless d.modifier := by
    unfold modifier
    split <;> decide
  have hnamed : ∀ keyword, Braceless keyword → Braceless (d.modifier ++ keyword ++ d.name) :=
    fun keyword hkeyword => (hmodifier.append hkeyword).append hname
  have hgenerics := braceless_angled htypeParams
  unfold head
  cases hd : d.kind with
  | interface base properties methods =>
    refine ((hnamed "interface " (by decide)).append hgenerics).append ?_
    cases base with
    | none => decide
    | some type =>
      rw [hd, DeclarationKind.atoms, List.forall_mem_append, List.forall_mem_append] at hkind
      have hbase : ∀ s ∈ type.names, Braceless s := by simpa using hkind.1.1
      exact Braceless.append (by decide) (TypeExpr.braceless_text type hbase)
  | enumeration members => exact hnamed "enum " (by decide)
  | stringWrapper => exact ((hnamed "class " (by decide)).append hgenerics).append (by decide)
  | classType methods => exact (hnamed "class " (by decide)).append hgenerics

private theorem laid_methods {methods : List Method}
    (h : ∀ s ∈ methods.flatMap Method.atoms, Braceless s) :
    Laid 1 (methods.flatMap Method.outline) :=
  .flatMap fun m hm => m.laid_outline fun s hs => h s (List.mem_flatMap.mpr ⟨m, hm, hs⟩)

private theorem laid_properties {properties : List Property}
    (h : ∀ s ∈ properties.flatMap Property.atoms, Braceless s) :
    Laid 1 (properties.map fun p => (1, p.text)) := by
  refine .map fun p hp => ?_
  have hcolon : ':' ∈ p.text.toList := by simp [Property.text]
  refine .single (opens_of_braceless (braceless_property fun s hs => h s ?_) hcolon (by decide))
  exact List.mem_flatMap.mpr ⟨p, hp, hs⟩

/-- The inside of a declaration is laid out one level deeper. -/
theorem laid_outlineInside (h : ∀ s ∈ d.kind.atoms, Braceless s) : Laid 1 d.outlineInside := by
  unfold outlineInside
  cases hd : d.kind with
  | interface base properties methods =>
    rw [hd, DeclarationKind.atoms, List.forall_mem_append, List.forall_mem_append] at h
    exact (laid_properties h.1.2).append (laid_methods h.2)
  | enumeration members =>
    rw [hd] at h
    refine .map fun m hm => ?_
    have hcomma : ',' ∈ (m ++ ",").toList := by simp
    exact .single (opens_of_braceless ((h m hm).append (by decide)) hcomma (by decide))
  | stringWrapper => exact .nil
  | classType methods =>
    rw [hd] at h
    exact laid_methods h

/-- The lines of a declaration stand at their levels where no brace is open. -/
theorem laid_outline (h : ∀ s ∈ d.atoms, Braceless s) : Laid 0 d.outline := by
  have hhead := braceless_head h
  have hinside := laid_outlineInside (List.forall_mem_append.mp h).2
  have hblock := Laid.block (opens_head hhead) hinside
  unfold outline
  split
  · exact .single (opens_empty hhead)
  · exact hblock

/-- The outline of a declaration has its lines. -/
theorem lines_eq_outline (d : Declaration) : d.outline.map Prod.snd = d.lines := by
  have hmethods : ∀ methods : List Method,
      (methods.flatMap Method.outline).map Prod.snd = methods.flatMap Method.lines := by
    intro methods
    simp [List.map_flatMap, Method.lines_eq_outline]
  have hinside : d.outlineInside.map Prod.snd = d.inside := by
    unfold outlineInside inside
    cases d.kind <;> simp [hmethods, Function.comp_def]
  unfold outline lines
  cases d.kind <;> simp [hinside]

end Declaration

namespace SourceFile

variable {file : SourceFile}

private theorem opens_import {i : Import} (h : ∀ s ∈ i.atoms, Braceless s) :
    Opens 0 i.text.toList := by
  cases i with
  | named items source =>
    rw [Import.atoms, List.forall_mem_cons] at h
    have hhead : ("import \x7b " ++ Text.join ", " items ++ " \x7d from \"" ++ source ++
        "\";").toList.head? = some 'i' := by
      simp
    exact (Import.inert_named h.1 h.2).opens hhead (by decide)
  | reference path =>
    rw [Import.atoms, List.forall_mem_singleton] at h
    have hhead : ("/// <reference path=\"" ++ path ++ "\" />").toList.head? = some '/' := by
      simp
    exact (Import.inert_reference h).opens hhead (by decide)

private theorem laid_appendOutline {earlier : List (Nat × String)} (hearlier : Laid 0 earlier)
    {d : Declaration} (h : ∀ s ∈ d.atoms, Braceless s) : Laid 0 (appendOutline earlier d) := by
  unfold appendOutline
  split
  · exact Laid.nil.append (d.laid_outline h)
  · exact (hearlier.append .empty).append (d.laid_outline h)

private theorem laid_foldl {earlier : List (Nat × String)} (hearlier : Laid 0 earlier)
    {declarations : List Declaration}
    (h : ∀ s ∈ declarations.flatMap Declaration.atoms, Braceless s) :
    Laid 0 (declarations.foldl appendOutline earlier) := by
  induction declarations generalizing earlier with
  | nil => exact hearlier
  | cons d declarations ih =>
    rw [List.flatMap_cons, List.forall_mem_append] at h
    exact ih (laid_appendOutline hearlier h.1) h.2

/-- The lines of a file are laid out as its outline says. -/
theorem laid_outline (h : ∀ s ∈ file.atoms, Braceless s) : Laid 0 file.outline := by
  rw [atoms, List.forall_mem_append] at h
  refine laid_foldl (.map fun i hi => .single (opens_import fun s hs => h.1 s ?_)) h.2
  exact List.mem_flatMap.mpr ⟨i, hi, hs⟩

/-- The outline of a file has its lines. -/
theorem lines_eq_outline (file : SourceFile) : file.outline.map Prod.snd = file.lines := by
  have hfold : ∀ (declarations : List Declaration) (earlier : List (Nat × String)),
      (declarations.foldl appendOutline earlier).map Prod.snd =
        declarations.foldl append (earlier.map Prod.snd) := by
    intro declarations
    induction declarations with
    | nil => exact fun _ => rfl
    | cons d declarations ih =>
      intro earlier
      have happend : (appendOutline earlier d).map Prod.snd = append (earlier.map Prod.snd) d := by
        cases earlier <;> simp [appendOutline, append, Declaration.lines_eq_outline]
      rw [List.foldl_cons, List.foldl_cons, ih, happend]
  rw [outline, lines, hfold, List.map_map]
  rfl

/-- A file without braces of its own is indented as it is structured: each line stands at its level
in the outline, no line closes a brace that is not open, and behind the imports and each
declaration no brace is open. -/
theorem indent_eq_outline (h : ∀ s ∈ file.atoms, Braceless s) :
    file.outline.map Prod.snd = file.lines ∧
      Layout.indent file.lines = file.outline.map (fun l =>
        String.ofList (Layout.indentation l.1) ++ Text.trim l.2) ∧
      Layout.Unclamped 0 (file.lines.map String.toList) ∧
      ∀ declarations, declarations <+: file.declarations →
        Layout.depth (lines ⟨file.imports, declarations⟩) = 0 := by
  have hchars : ∀ file : SourceFile, Layout.chars file.outline = file.lines.map String.toList := by
    intro file
    rw [← lines_eq_outline, List.map_map]
    rfl
  have hlaid := laid_outline h
  refine ⟨lines_eq_outline file, ?_, ?_, fun declarations hprefix => ?_⟩
  · rw [Layout.indent, ← hchars, hlaid.levels, List.map_map]
    simp [Function.comp_def, Text.trim, String.ofList_append]
  · rw [← hchars]
    exact hlaid.unclamped
  · have hdeclarations : ∀ s ∈ atoms ⟨file.imports, declarations⟩, Braceless s := by
      intro s hs
      apply h
      rw [atoms, List.mem_append, List.mem_flatMap, List.mem_flatMap] at hs ⊢
      refine hs.imp_right ?_
      rintro ⟨d, hd, hs⟩
      exact ⟨d, hprefix.subset hd, hs⟩
    rw [Layout.depth, ← hchars]
    exact (laid_outline hdeclarations).settled

end SourceFile

end TypeScript

namespace Shop

open TypeScript

/-- A file with an import, an interface with a property and a signature, an enum, and a class with
an empty method and one whose statement holds a template and an object literal. -/
def ordersFile : SourceFile where
  imports := [.named ["Product"] "./Product"]
  declarations := [
    { name := "Order", exported := true, kind := .interface none
        [{ name := "placed-at", type := .primitive .string }]
        [{ name := "cancel", result := some (.primitive .void) }] },
    { name := "Mode", exported := true, kind := .enumeration ["Fast"] },
    { name := "Orders", kind := .classType [
        { name := "ping", isPublic := true, body := some [] },
        { name := "get", params := [{ name := "id", type := .primitive .number }],
          body := some [.returns (.call (.member (.ident "api") "Get") [.ref "Order"]
            [.template [.text "/orders/", .hole (.ident "id")],
             .object [("page-size", .ident "size")]])] }] }]

/-- The lines of a file with an interface, an enumeration and a class. -/
theorem indent_ordersFile : (∀ s ∈ ordersFile.atoms, Braceless s) ∧
    Layout.indent ordersFile.lines = [
      "import \x7b Product \x7d from \"./Product\";",
      "",
      "export interface Order \x7b",
      "    \"placed-at\": string;",
      "    cancel(): void;",
      "\x7d",
      "",
      "export enum Mode \x7b",
      "    Fast,",
      "\x7d",
      "",
      "class Orders \x7b",
      "    public ping() \x7b\x7d",
      "    get(id: number) \x7b",
      "        return api.Get<Order>(\x60/orders/$\x7bid\x7d\x60, \x7b \"page-size\": size \x7d);",
      "    \x7d",
      "\x7d"] ∧
    Layout.Unclamped 0 (ordersFile.lines.map String.toList) ∧
    Layout.depth ordersFile.lines = 0 := by
  have hatoms : ∀ s ∈ ordersFile.atoms, Braceless s := by decide
  obtain ⟨-, hindent, hunclamped, hdepth⟩ := SourceFile.indent_eq_outline hatoms
  refine ⟨hatoms, hindent.trans ?_, hunclamped, hdepth _ List.prefix_rfl⟩
  decide

end Shop

end ApiTypings
