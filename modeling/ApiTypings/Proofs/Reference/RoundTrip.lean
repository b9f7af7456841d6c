import ApiTypings.Proofs.Reference.Completeness
import ApiTypings.Proofs.Reference.WellFormed

/-!
# Reading undoes display

The display of a well-formed reference derives it in the grammar, so it is read back. The reader
returns well-formed references only, and so the display of whatever was read is read to the same
reference again.
-/

namespace ApiTypings.Reference

open Text Grammar

/-! ## Derivations with blanks before them -/

/-- Blanks may stand before a reference. -/
theorem written_blanks {gap cs : List Char} {r : Reference} (hgap : Blanks gap)
    (h : Written cs r) : Written (gap ++ cs) r := by
  have hall : ∀ blanks : List Char, Blanks blanks → Blanks (gap ++ blanks) := by
    intro blanks hb c hc
    exact (List.mem_append.mp hc).elim (hgap c) (hb c)
  exact @Written.rec (fun cs r _ => Written (gap ++ cs) r) (fun cs r _ => Atom (gap ++ cs) r)
    (fun _ _ _ => True)
    (fun _ ih => .atom ih)
    (fun _ hb ih => by simpa using ih.array hb)
    (fun _ hb ih => by simpa using ih.nullable hb)
    (fun hb hne hd hlt => by simpa using Atom.param (hall _ hb) hne hd hlt)
    (fun hb hn => by simpa using Atom.simple (hall _ hb) hn)
    (fun hb hn hg hargs _ => by simpa using Atom.generic (hall _ hb) hn hg hargs)
    (fun _ _ _ => trivial)
    (fun _ _ _ _ _ => trivial)
    cs r h

/-- Blanks may stand before arguments. -/
theorem arguments_blanks {gap cs : List Char} {args : List Reference} (hgap : Blanks gap)
    (h : Arguments cs args) : Arguments (gap ++ cs) args := by
  cases h with
  | last hw hb => simpa using Arguments.last (written_blanks hgap hw) hb
  | more hw hb hrest => simpa using Arguments.more (written_blanks hgap hw) hb hrest

/-! ## Display -/

private theorem isEmpty_displayAll (args : List Reference) :
    (displayAll args).isEmpty = args.isEmpty := by
  cases args <;> rfl

/-- A named type is what the segments of its qualified name make of its arguments. -/
theorem exists_segments {id : Identity} {args : List Reference} (h : id.IsDotted)
    (harity : id.arity = args.length) : ∃ segments,
      Name id.qualifiedName.toList segments ∧ ofSegments segments args = named id args := by
  have hid := Identity.ofQualified_qualifiedName h
  obtain ⟨init, last, hname, _⟩ := h
  have hjoin := toList_join_of_name hname
  rw [String.toList_inj] at hjoin
  refine ⟨init ++ [last], hname, ?_⟩
  rw [ofSegments, generic, hjoin, ← harity, hid]

/-- The display of a reference derives it, if the reference is well-formed. -/
def Displays (r : Reference) : Prop := r.WellFormed → Written r.display.toList r

/-- The displays of arguments, with a comma and a blank between two of them, derive them. -/
def DisplaysAll (args : List Reference) : Prop :=
  AllWellFormed args → args ≠ [] →
    Arguments ((Text.join ", " (displayAll args)).toList ++ ['>']) args

/-- A named type is displayed as it is read if its arguments are. -/
theorem Displays.named {id : Identity} {args : List Reference} (ih : DisplaysAll args) :
    Displays (.named id args) := by
  intro h
  obtain ⟨harity, hdotted, hargs⟩ := h
  obtain ⟨segments, hname, hid⟩ := exists_segments hdotted harity
  cases args with
  | nil =>
    have hsimple := Atom.simple blanks_nil hname
    rw [hid] at hsimple
    exact .atom hsimple
  | cons r rs =>
    have hgeneric := Atom.generic blanks_nil hname blanks_nil (ih hargs nofun)
    rw [hid] at hgeneric
    have hdisplay : (display (.named id (r :: rs))).toList =
        [] ++ id.qualifiedName.toList ++ [] ++
          '<' :: ((Text.join ", " (displayAll (r :: rs))).toList ++ ['>']) := by
      simp [display, isEmpty_displayAll]
    rw [hdisplay]
    exact .atom hgeneric

/-- A parameter is displayed as it is read. -/
theorem Displays.param {position : Nat} : Displays (.param position) := by
  intro h
  have hdigits : (toString position).toList = Nat.toDigits 10 position := Nat.toList_repr
  have hall : (Nat.toDigits 10 position).all Char.isDigit = true := by
    rw [List.all_eq_true]
    intro c hc
    exact Nat.isDigit_of_mem_toDigits (by decide) (by decide) hc
  have hparam := Atom.param blanks_nil Nat.toDigits_ne_nil hall
    (by rw [decimal_toDigits]; exact h)
  rw [decimal_toDigits] at hparam
  rw [display, String.toList_append, hdigits]
  exact .atom hparam

/-- An array is displayed as it is read if its element is. -/
theorem Displays.array {element : Reference} (ih : Displays element) :
    Displays (.array element) := by
  intro h
  have harray := (ih h).array blanks_nil
  rw [display, String.toList_append]
  simpa using harray

/-- A nullable reference is displayed as it is read if what it holds is. -/
theorem Displays.nullable {inner : Reference} (ih : Displays inner) :
    Displays (.nullable inner) := by
  intro h
  have hnullable := (ih h).nullable blanks_nil
  rw [display, String.toList_append]
  simpa using hnullable

/-- Arguments are displayed as they are read if each is. -/
theorem DisplaysAll.cons {r : Reference} {rs : List Reference} (ih : Displays r)
    (ihs : DisplaysAll rs) : DisplaysAll (r :: rs) := by
  intro h _
  cases rs with
  | nil => simpa [displayAll, Text.join] using Arguments.last (ih h.1) blanks_nil
  | cons s rest =>
    have hblank : Blanks [' '] := by
      intro c hc
      rw [List.mem_singleton.mp hc]
      decide
    have hrest := arguments_blanks hblank (ihs h.2 (List.cons_ne_nil s rest))
    have hmore := Arguments.more (ih h.1) blanks_nil hrest
    simp only [displayAll, Text.join, String.toList_append] at hmore ⊢
    simpa using hmore

private theorem DisplaysAll.of_forall {args : List Reference} (h : ∀ r ∈ args, Displays r) :
    DisplaysAll args := by
  induction args with
  | nil => exact fun _ hne => absurd rfl hne
  | cons r rs ih =>
    rw [List.forall_mem_cons] at h
    exact .cons h.1 (ih h.2)

/-- Every well-formed reference is derived by its display. -/
theorem displays (r : Reference) : Displays r := by
  induction r using Reference.induction with
  | named id args ih => exact .named (.of_forall ih)
  | param position => exact .param
  | array element ih => exact .array ih
  | nullable inner ih => exact .nullable ih

/-- The display of a well-formed reference is read to that reference. -/
theorem parse_display {r : Reference} (h : r.WellFormed) : parse r.display = .ok r := by
  have hwhole := Whole.mk (displays r h) blanks_nil
  rw [List.append_nil] at hwhole
  exact parse_of_whole hwhole

/-- Reading undoes display: on whatever was read, and on every well-formed reference, and so two
well-formed references with one display are equal. -/
theorem parse_undoes_display :
    (∀ text r, parse text = .ok r → parse r.display = .ok r) ∧
    (∀ r : Reference, r.WellFormed → parse r.display = .ok r) ∧
    (∀ r s : Reference, r.WellFormed → s.WellFormed → r.display = s.display → r = s) := by
  refine ⟨?_, ?_, ?_⟩
  · intro text r h
    exact parse_display (wellFormed_of_parse h)
  · intro r h
    exact parse_display h
  · intro r s hr hs heq
    have hread := parse_display hr
    rw [heq, parse_display hs] at hread
    exact (Except.ok.inj hread).symm

end ApiTypings.Reference
