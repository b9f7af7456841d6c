import ApiTypings.Proofs.Render.Scanning
import Mathlib.Data.List.Chain
import Mathlib.Data.List.Forall2

/-!
# Templates of routes

A path with segments becomes a template, in which each segment is replaced by the encoded value of
the first argument that fills it. Nothing else of the path changes: with the segments written back
where the values stand, the parts of the template are the path again. A path is refused at the
first segment that no argument fills.
-/

namespace ApiTypings.Render

open TypeScript (Expr TemplatePart)

/-- An argument fills a segment when it is called like it, the case of letters aside. -/
def Argument.Fills (a : Argument) (placeholder : List Char) : Prop :=
  ∃ name, Route.Names placeholder name ∧ Text.sameIgnoringCase a.key (String.ofList name) = true

/-- An argument fills a placeholder when its key is the name in it, in any case. -/
theorem Argument.fills_iff {a : Argument} {placeholder : List Char} :
    a.Fills placeholder ↔
      Text.sameIgnoringCase a.key (String.ofList (Route.name placeholder)) = true := by
  simp only [Fills, Route.names_iff, exists_eq_left]

namespace Route

/-- The first of the arguments that fill a segment. -/
def Selects (arguments : List Argument) (placeholder : List Char) (a : Argument) : Prop :=
  ∃ earlier later, arguments = earlier ++ a :: later ∧ a.Fills placeholder ∧
    ∀ b ∈ earlier, ¬ b.Fills placeholder

/-- The values that stand in a template, in order. -/
def holes : List TemplatePart → List Expr
  | [] => []
  | .text _ :: parts => holes parts
  | .hole value :: parts => value :: holes parts

/-- What a template was made from: its texts, with segments in braces where values stand. -/
def restore : List TemplatePart → List (List Char) → List Char
  | [], _ => []
  | .text text :: parts, placeholders => text.toList ++ restore parts placeholders
  | .hole _ :: parts, placeholder :: placeholders =>
    '\x7b' :: (placeholder ++ '\x7d' :: restore parts placeholders)
  | .hole _ :: parts, [] => restore parts []

/-- Whether a part of a template is text. -/
def isText : TemplatePart → Bool
  | .text _ => true
  | .hole _ => false

/-- A template for a path with these segments: each is replaced by the encoded value of the first
argument that fills it, and what stands between two of them is one text or nothing. -/
structure Templates (arguments : List Argument) (path : List Char)
    (segments : List (List Char × List Char)) (parts : List TemplatePart) : Prop where
  texts : ∀ text, .text text ∈ parts → text ≠ ""
  apart : parts.IsChain fun p q => isText p = true → isText q = false
  values : List.Forall₂ (fun s value => ∃ a, Selects arguments s.2 a ∧
    value = .apply "encodeURIComponent" [.apply "String" [.ident a.ident]]) segments (holes parts)
  restored : restore parts (segments.map Prod.snd) = path

section Binding

variable {arguments : List Argument} {segments : List (List Char × List Char)}

/-- A placeholder selects the argument at the position it is bound to. -/
theorem selects_iff {placeholder : List Char} {a : Argument} :
    Selects arguments placeholder a ↔
      ∃ i, Argument.position? arguments placeholder = some i ∧ arguments[i]? = some a := by
  have hfirst := @List.find?_eq_some_iff_append _ a
    (fun a => Text.sameIgnoringCase a.key (String.ofList (name placeholder))) arguments
  rw [List.find?_eq_bind_findIdx?_getElem?, Option.bind_eq_some_iff] at hfirst
  rw [Argument.position?, hfirst]
  simp only [Selects, Argument.fills_iff, Bool.not_eq_true, Bool.not_eq_true']
  constructor
  · rintro ⟨earlier, later, heq, ha, hearlier⟩
    exact ⟨ha, earlier, later, heq, hearlier⟩
  · rintro ⟨ha, earlier, later, heq, hearlier⟩
    exact ⟨earlier, later, heq, ha, hearlier⟩

private theorem position?_isSome_iff_fills {placeholder : List Char} :
    (Argument.position? arguments placeholder).isSome = true ↔
      ∃ a ∈ arguments, a.Fills placeholder := by
  simp only [position?_isSome_iff, Argument.fills_iff]

/-- A placeholder is not bound when no argument fills it. -/
theorem position?_eq_none_iff {placeholder : List Char} :
    Argument.position? arguments placeholder = none ↔
      ∀ a ∈ arguments, ¬ a.Fills placeholder := by
  rw [← Option.not_isSome_iff_eq_none, position?_isSome_iff_fills]
  simp only [not_exists, not_and]

/-- The positions that segments are bound to are those of the arguments that fill them. -/
theorem bind_eq_ok_iff {bound : List Nat} :
    bind arguments segments = .ok bound ↔
      List.Forall₂ (fun s i => Argument.position? arguments s.2 = some i) segments bound := by
  induction segments generalizing bound with
  | nil =>
    rw [List.forall₂_nil_left_iff]
    exact ⟨fun h => (Except.ok.inj h).symm, fun h => h ▸ rfl⟩
  | cons s rest ih =>
    rw [bind, List.forall₂_cons_left_iff]
    cases hp : Argument.position? arguments s.2 with
    | none =>
      constructor
      · intro h
        cases h
      · rintro ⟨i, _, hi, _⟩
        cases hi
    | some position =>
      constructor
      · intro h
        obtain ⟨later, hlater, rfl⟩ := exists_of_map_ok h
        exact ⟨position, later, rfl, ih.mp hlater, rfl⟩
      · rintro ⟨_, later, ⟨⟩, hlater, rfl⟩
        rw [ih.mpr hlater]
        rfl

/-- Binding fails at the first segment that no argument fills. -/
theorem exists_of_bind_error {u : List Char} (h : bind arguments segments = .error u) :
    ∃ earlier before later, segments = earlier ++ (before, u) :: later ∧
      Argument.position? arguments u = none ∧
      ∀ s ∈ earlier, (Argument.position? arguments s.2).isSome = true := by
  induction segments with
  | nil => cases h
  | cons s rest ih =>
    obtain ⟨before, placeholder⟩ := s
    rw [bind] at h
    cases hp : Argument.position? arguments placeholder with
    | none =>
      rw [hp] at h
      cases h
      exact ⟨[], before, rest, rfl, hp, fun s hs => absurd hs List.not_mem_nil⟩
    | some position =>
      cases hb : bind arguments rest with
      | ok bound =>
        rw [hp, hb] at h
        cases h
      | error u' =>
        rw [hp, hb] at h
        cases h
        obtain ⟨earlier, before', later, heq, hu, hearlier⟩ := ih hb
        refine ⟨(before, placeholder) :: earlier, before', later, ?_, hu, ?_⟩
        · rw [heq, List.cons_append]
        · rw [List.forall_mem_cons, hp]
          exact ⟨rfl, hearlier⟩

/-! ## Parts of a template -/

private theorem ne_empty_of_mem_textPart {text : String} {cs : List Char}
    (h : .text text ∈ textPart cs) : text ≠ "" := by
  cases cs with
  | nil => cases h
  | cons c cs =>
    cases List.mem_singleton.mp h
    intro hempty
    have hlist := congrArg String.toList hempty
    simp at hlist

/-- The rest of a path is one text or nothing. -/
theorem Templates.tail (arguments : List Argument) (text : List Char) :
    Templates arguments text [] (textPart text) where
  texts _ := ne_empty_of_mem_textPart
  apart := by cases text <;> simp [textPart]
  values := by cases text <;> exact .nil
  restored := by cases text <;> simp [textPart, restore]

/-- A segment and the text before it stand in front of a template for what follows. -/
theorem Templates.segment {a : Argument} {before placeholder rest : List Char}
    {parts : List TemplatePart} (ha : Selects arguments placeholder a)
    (h : Templates arguments rest segments parts) :
    Templates arguments (before ++ '\x7b' :: (placeholder ++ '\x7d' :: rest))
      ((before, placeholder) :: segments) (textPart before ++ hole a :: parts) where
  texts text hmem := by
    rcases List.mem_append.mp hmem with hmem | hmem
    · exact ne_empty_of_mem_textPart hmem
    · rcases List.mem_cons.mp hmem with hmem | hmem
      · cases hmem
      · exact h.texts text hmem
  apart := by
    have hrest : (hole a :: parts).IsChain fun p q => isText p = true → isText q = false :=
      h.apart.cons fun _ _ => nofun
    cases before with
    | nil => exact hrest
    | cons c cs => exact List.isChain_cons_cons.mpr ⟨fun _ => rfl, hrest⟩
  values := by cases before <;> exact .cons ⟨a, ha, rfl⟩ h.values
  restored := by
    have hrest := h.restored
    cases before <;> simp [textPart, hole, restore, hrest]

/-- A placeholder is bound to an argument. -/
theorem exists_argument {placeholder : List Char} {i : Nat}
    (h : Argument.position? arguments placeholder = some i) : ∃ a, arguments[i]? = some a := by
  obtain ⟨hi, _⟩ := List.findIdx?_eq_some_iff_getElem.mp h
  exact ⟨arguments[i], List.getElem?_eq_getElem hi⟩

/-- The parts that are made of bound segments are a template for the path they were read from. -/
theorem templates_parts (tail : List Char) {bound : List Nat}
    (h : List.Forall₂ (fun s i => Argument.position? arguments s.2 = some i) segments bound) :
    Templates arguments (write segments tail) segments (parts arguments tail segments bound) := by
  induction h with
  | nil => exact .tail arguments tail
  | @cons s i segments bound hi _ ih =>
    obtain ⟨before, placeholder⟩ := s
    obtain ⟨a, ha⟩ := exists_argument hi
    have hselects : Selects arguments placeholder a := selects_iff.mpr ⟨i, hi, ha⟩
    have hparts : parts arguments tail ((before, placeholder) :: segments) (i :: bound) =
        textPart before ++ hole a :: parts arguments tail segments bound := by
      rw [parts, ha, List.append_assoc]
      rfl
    rw [hparts, write, List.append_assoc]
    exact ih.segment hselects

/-- A path has no URL exactly when a placeholder is not bound. -/
theorem url_error_iff {path : String} {u : List Char} :
    url path arguments = .error u ↔ bind arguments (ofPath path.toList).segments = .error u := by
  rw [url]
  cases bind arguments (ofPath path.toList).segments with
  | error placeholder => simp
  | ok bound => cases bound <;> simp

/-- The URL of a bound path is a text or a template. -/
theorem url_of_bind {path : String} {bound : List Nat}
    (h : bind arguments (ofPath path.toList).segments = .ok bound) :
    url path arguments = .ok (if bound = [] then .string path else
      .template (parts arguments (ofPath path.toList).tail (ofPath path.toList).segments bound),
      bound) := by
  rw [url, h]
  cases bound <;> rfl

end Binding

/-- A path binds without loss. Reading it from the left takes it apart in one way. A URL is refused
exactly when some segment names no argument, and the first such segment is reported; otherwise it
is the path itself if there are no segments, and else a template that has the encoded values of the
first matching arguments in the place of the segments and gives the path with these written back. -/
theorem url_lossless (path : String) (arguments : List Argument) :
    ∃ route, (∀ other, Reads path.toList other ↔ other = route) ∧
      ((∃ u, url path arguments = .error u) ↔
        ∃ s ∈ route.segments, ∀ a ∈ arguments, ¬ a.Fills s.2) ∧
      (∀ u, url path arguments = .error u →
        ∃ earlier before later, route.segments = earlier ++ (before, u) :: later ∧
          (∀ a ∈ arguments, ¬ a.Fills u) ∧ ∀ s ∈ earlier, ∃ a ∈ arguments, a.Fills s.2) ∧
      ((∀ s ∈ route.segments, ∃ a ∈ arguments, a.Fills s.2) →
        ∃ made bound, url path arguments = .ok (made, bound) ∧
          (route.segments = [] → made = .string path) ∧
          (route.segments ≠ [] → ∃ parts, made = .template parts ∧
            Templates arguments path.toList route.segments parts)) := by
  refine ⟨ofPath path.toList, fun other => reads_iff, ?refused, ?first, ?made⟩
  case refused =>
    constructor
    · rintro ⟨u, hu⟩
      obtain ⟨earlier, before, later, heq, hnone, _⟩ := exists_of_bind_error (url_error_iff.mp hu)
      refine ⟨(before, u), ?_, position?_eq_none_iff.mp hnone⟩
      rw [heq]
      simp
    · rintro ⟨s, hs, hnone⟩
      cases hb : bind arguments (ofPath path.toList).segments with
      | error u => exact ⟨u, url_error_iff.mpr hb⟩
      | ok bound =>
        have hbound := exists_bind_iff.mp ⟨bound, hb⟩ s hs
        rw [position?_eq_none_iff.mpr hnone] at hbound
        cases hbound
  case first =>
    intro u hu
    obtain ⟨earlier, before, later, heq, hnone, hearlier⟩ :=
      exists_of_bind_error (url_error_iff.mp hu)
    refine ⟨earlier, before, later, heq, position?_eq_none_iff.mp hnone, fun s hs => ?_⟩
    exact position?_isSome_iff_fills.mp (hearlier s hs)
  case made =>
    intro hfilled
    obtain ⟨bound, hbind⟩ := exists_bind_iff.mpr fun s hs =>
      position?_isSome_iff_fills.mpr (hfilled s hs)
    have hpositions := bind_eq_ok_iff.mp hbind
    refine ⟨_, bound, url_of_bind hbind, fun hnone => ?_, fun hsome => ?_⟩
    · rw [hnone, List.forall₂_nil_left_iff] at hpositions
      exact if_pos hpositions
    · have hbound : bound ≠ [] := by
        rintro rfl
        exact hsome (List.forall₂_nil_right_iff.mp hpositions)
      have htemplate := templates_parts (ofPath path.toList).tail hpositions
      have hpath : write (ofPath path.toList).segments (ofPath path.toList).tail = path.toList :=
        path_ofPath path.toList
      rw [hpath] at htemplate
      exact ⟨_, if_neg hbound, htemplate⟩

end Route

end ApiTypings.Render
