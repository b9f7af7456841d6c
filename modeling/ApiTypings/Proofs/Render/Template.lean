import ApiTypings.Proofs.Render.Binding
import ApiTypings.Proofs.TypeScript.Call
import ApiTypings.Proofs.TypeScript.Stretch
import ApiTypings.Render.Writer

/-!
# Templates are read back

A template literal is read as the parts that it was made from, in one way: the texts that stand
before, between and behind its values, and the values. No text ends early, since its escapes end no
stretch, and no value does, since a brace ends its calls. The URL of a route is such a template: its
texts are those around the segments of the path.
-/

namespace ApiTypings.Render.Route

open TypeScript (Expr TemplatePart escapeTemplate escapeTemplateChars)
open TypeScript.Literal

variable {t : String} {e : Expr} {parts : List TemplatePart} {cs rest rest' : List Char}
  {texts : List String} {values : List Expr}

/-- The texts around the values of a template: before each of them and behind the last. -/
def stretches : List TemplatePart → List String
  | [] => [""]
  | .text text :: parts => (stretches parts).modifyHead (text ++ ·)
  | .hole _ :: parts => "" :: stretches parts

/-- The parts that texts and the values between them are, without the empty texts. -/
def weave : List String → List Expr → List TemplatePart
  | text :: texts, value :: values => textPart text.toList ++ .hole value :: weave texts values
  | texts, _ => texts.flatMap fun text => textPart text.toList

/-- Whether a part of a template is an empty text. -/
def isEmptyText : TemplatePart → Bool
  | .text text => text.isEmpty
  | .hole _ => false

/-- The texts of a template hold no carriage return and do not touch, and its values are
identifiers and calls. -/
structure Legible (parts : List TemplatePart) : Prop where
  texts : ∀ text, .text text ∈ parts → '\r' ∉ text.toList
  apart : parts.IsChain fun p q => isText p = true → isText q = false
  values : ∀ value ∈ holes parts, value.Plain

/-! ## Parts one after the other -/

/-- Behind a text, a template ends or goes on with a value. -/
theorem Legible.after_text (h : Legible (.text t :: parts)) :
    parts = [] ∨ ∃ e later, parts = .hole e :: later := by
  cases parts with
  | nil => exact .inl rfl
  | cons p later =>
    have hp := (List.isChain_cons_cons.mp h.apart).1 rfl
    cases p with
    | text => cases hp
    | hole e => exact .inr ⟨e, later, rfl⟩

/-- Behind its first part a legible template is legible. -/
theorem Legible.tail {p : TemplatePart} (h : Legible (p :: parts)) : Legible parts where
  texts text hmem := h.texts text (List.mem_cons_of_mem _ hmem)
  apart := h.apart.tail
  values value hmem := by
    apply h.values
    cases p with
    | text => exact hmem
    | hole => exact List.mem_cons_of_mem _ hmem

private theorem body_end_iff :
    TemplateBody ('\x60' :: cs) texts values rest ↔ texts = [""] ∧ values = [] ∧ rest = cs := by
  constructor
  · intro h
    cases h with
    | last hstretch =>
      obtain ⟨rfl, hrest⟩ := stretch_accent_iff.mp hstretch
      exact ⟨rfl, rfl, List.tail_eq_of_cons_eq hrest⟩
    | more hstretch =>
      obtain ⟨_, hrest⟩ := stretch_accent_iff.mp hstretch
      exact absurd (List.head_eq_of_cons_eq hrest) (by decide)
  · rintro ⟨rfl, rfl, rfl⟩
    exact .last (.accent _)

private theorem body_hole_iff (he : e.Plain) :
    TemplateBody ('$' :: '\x7b' :: (e.text.toList ++ '\x7d' :: cs)) texts values rest ↔
      ∃ ts vs, TemplateBody cs ts vs rest ∧ texts = "" :: ts ∧ values = e :: vs := by
  have hread : ∀ {e' ds}, Expression (e.text.toList ++ '\x7d' :: cs) e' ds ↔
      e' = e ∧ ds = '\x7d' :: cs :=
    (leads_of_plain he).expression_iff (by decide) (by decide) (by decide)
  constructor
  · intro h
    cases h with
    | last hstretch =>
      obtain ⟨_, hrest⟩ := stretch_brace_iff.mp hstretch
      exact absurd (List.head_eq_of_cons_eq hrest) (by decide)
    | more hstretch hexpr hbrace hbody =>
      obtain ⟨rfl, hrest⟩ := stretch_brace_iff.mp hstretch
      cases hrest
      obtain ⟨rfl, rfl⟩ := hread.mp hexpr
      cases hbrace
      exact ⟨_, _, hbody, rfl, rfl⟩
  · rintro ⟨ts, vs, hbody, rfl, rfl⟩
    exact .more (.brace _) (hread.mpr ⟨rfl, rfl⟩) rfl hbody

/-- A text in front of a template belongs to its first stretch. -/
theorem body_text_iff (hends : Ends cs) (hreturn : '\r' ∉ t.toList) :
    TemplateBody (escapeTemplateChars t.toList ++ cs) texts values rest ↔
      ∃ ts, TemplateBody cs ts values rest ∧ texts = ts.modifyHead (t ++ ·) := by
  have hstretch : ∀ {w ds}, Stretch (escapeTemplateChars t.toList ++ cs) w ds ↔
      w = t.toList ∧ ds = cs := hends.stretch_escaped_iff hreturn
  have hself : Stretch cs [] cs := hends.stretch_iff.mpr ⟨rfl, rfl⟩
  constructor
  · intro h
    cases h with
    | last htext =>
      obtain ⟨rfl, rfl⟩ := hstretch.mp htext
      refine ⟨_, .last hself, ?_⟩
      simp
    | more htext hexpr hbrace hbody =>
      obtain ⟨rfl, rfl⟩ := hstretch.mp htext
      refine ⟨_, .more hself hexpr hbrace hbody, ?_⟩
      simp
  · rintro ⟨ts, hbody, rfl⟩
    cases hbody with
    | last hnone =>
      obtain ⟨rfl, rfl⟩ := hends.stretch_iff.mp hnone
      have hwhole := TemplateBody.last (hstretch.mpr ⟨rfl, rfl⟩)
      simpa using hwhole
    | more hnone hexpr hbrace hbody =>
      obtain ⟨rfl, rfl⟩ := hends.stretch_iff.mp hnone
      have hwhole := TemplateBody.more (hstretch.mpr ⟨rfl, rfl⟩) hexpr hbrace hbody
      simpa using hwhole

/-! ## Whole templates -/

/-- What stands in a template behind the accent that opens it. -/
def body : List TemplatePart → List Char → List Char
  | [], rest => '\x60' :: rest
  | .text text :: parts, rest => escapeTemplateChars text.toList ++ body parts rest
  | .hole value :: parts, rest => '$' :: '\x7b' :: (value.text.toList ++ '\x7d' :: body parts rest)

private theorem text_template_append (parts : List TemplatePart) (rest : List Char) :
    (Expr.template parts).text.toList ++ rest = '\x60' :: body parts rest := by
  have hbody : (Text.join "" (TemplatePart.texts parts)).toList ++ '\x60' :: rest =
      body parts rest := by
    induction parts with
    | nil => rfl
    | cons p parts ih =>
      have hjoin : Text.join "" (TemplatePart.texts (p :: parts)) =
          p.written ++ Text.join "" (TemplatePart.texts parts) := by
        cases parts with
        | nil => simp [TemplatePart.texts, Text.join]
        | cons q parts => simp [TemplatePart.texts, Text.join]
      rw [hjoin, String.toList_append, List.append_assoc, ih]
      cases p with
      | text => simp [TemplatePart.written, escapeTemplate, body]
      | hole => simp [TemplatePart.written, body]
  rw [← hbody, Expr.text]
  simp

private theorem Legible.body_iff (h : Legible parts) :
    TemplateBody (body parts rest) texts values rest' ↔
      texts = stretches parts ∧ values = holes parts ∧ rest' = rest := by
  induction parts generalizing texts values with
  | nil => exact body_end_iff
  | cons p parts ih =>
    cases p with
    | text t =>
      have hends : Ends (body parts rest) := by
        rcases h.after_text with rfl | ⟨e, later, rfl⟩
        · exact .accent _
        · exact .brace _
      rw [body, body_text_iff hends (h.texts t List.mem_cons_self)]
      simp only [ih h.tail]
      constructor
      · rintro ⟨_, ⟨rfl, hvalues, hrest⟩, rfl⟩
        exact ⟨rfl, hvalues, hrest⟩
      · rintro ⟨rfl, hvalues, hrest⟩
        exact ⟨_, ⟨rfl, hvalues, hrest⟩, rfl⟩
    | hole e =>
      rw [body, body_hole_iff (h.values e List.mem_cons_self)]
      simp only [ih h.tail]
      constructor
      · rintro ⟨_, _, ⟨rfl, rfl, hrest⟩, rfl, rfl⟩
        exact ⟨rfl, rfl, hrest⟩
      · rintro ⟨rfl, rfl, hrest⟩
        exact ⟨_, _, ⟨rfl, rfl, hrest⟩, rfl, rfl⟩

/-- A legible template is read in exactly one way. -/
theorem Legible.literal_iff (h : Legible parts) :
    TemplateLiteral ((Expr.template parts).text.toList ++ rest) texts values rest' ↔
      texts = stretches parts ∧ values = holes parts ∧ rest' = rest := by
  rw [text_template_append, ← h.body_iff]
  constructor
  · rintro ⟨hbody⟩
    exact hbody
  · exact .accents

private theorem filter_text_cons (t : String) (parts : List TemplatePart) :
    (TemplatePart.text t :: parts).filter (!isEmptyText ·) =
      textPart t.toList ++ parts.filter (!isEmptyText ·) := by
  cases ht : t.toList with
  | nil => simp [isEmptyText, textPart, String.toList_eq_nil_iff.mp ht]
  | cons c cs =>
    have hne : t ≠ "" := by
      rintro rfl
      cases ht
    have hback : String.ofList (c :: cs) = t := by rw [← ht, String.ofList_toList]
    simp [isEmptyText, textPart, hne, hback]

/-- With the values between them, the texts are the parts again. -/
theorem Legible.weave_stretches (h : Legible parts) :
    weave (stretches parts) (holes parts) = parts.filter (!isEmptyText ·) := by
  induction parts with
  | nil => rfl
  | cons p parts ih =>
    have htail := ih h.tail
    cases p with
    | text t =>
      rw [filter_text_cons, ← htail]
      rcases h.after_text with rfl | ⟨e, later, rfl⟩
      · simp [stretches, holes, weave, textPart]
      · simp [stretches, holes, weave, textPart]
    | hole e =>
      rw [stretches, holes, weave, htail]
      rfl

/-! ## Templates of routes -/

section Path

variable {arguments : List Argument} {segments : List (List Char × List Char)}

/-- The texts of a route's template are those before its segments and the one behind the last. -/
theorem stretches_parts {bound : List Nat} (tail : List Char)
    (h : List.Forall₂ (fun s i => Argument.position? arguments s.2 = some i) segments bound) :
    stretches (Route.parts arguments tail segments bound) =
      segments.map (String.ofList ·.1) ++ [String.ofList tail] := by
  have htext : ∀ (text : List Char) (later : List TemplatePart),
      stretches (textPart text ++ later) =
        (stretches later).modifyHead (String.ofList text ++ ·) := by
    intro text later
    cases text with
    | nil =>
      change stretches later = (stretches later).modifyHead ("" ++ ·)
      cases stretches later <;> simp
    | cons c cs => rfl
  induction h with
  | nil =>
    have htail := htext tail []
    rw [List.append_nil] at htail
    rw [Route.parts, htail]
    · simp [stretches]
    · rintro _ _ _ _ _ ⟨⟩
  | @cons s i segments bound hi _ ih =>
    obtain ⟨before, placeholder⟩ := s
    obtain ⟨a, ha⟩ := exists_argument hi
    rw [Route.parts, ha, List.append_assoc, htext]
    change (stretches (hole a :: Route.parts arguments tail segments bound)).modifyHead _ = _
    rw [hole, stretches, ih]
    simp

/-- A text of a template is part of what the template was made from. -/
theorem mem_restore {c : Char} (placeholders : List (List Char)) (ht : .text t ∈ parts)
    (hc : c ∈ t.toList) : c ∈ restore parts placeholders := by
  fun_induction restore parts placeholders with
  | case1 => cases ht
  | case2 text parts placeholders ih =>
    rw [List.mem_append]
    rcases List.mem_cons.mp ht with heq | hlater
    · cases heq
      exact .inl hc
    · exact .inr (ih hlater)
  | case3 value parts placeholder placeholders ih =>
    rcases List.mem_cons.mp ht with heq | hlater
    · cases heq
    · simp [ih hlater]
  | case4 value parts ih =>
    rcases List.mem_cons.mp ht with heq | hlater
    · cases heq
    · exact ih hlater

private theorem plain_encoded {name : String} (h : (Expr.ident name).Plain) :
    (Expr.apply "encodeURIComponent" [.apply "String" [.ident name]]).Plain := by
  have hglobal : ∀ {function e}, TypeScript.isPlainName function.toList = true →
      function ∉ keywords → e.Plain → (Expr.apply function [e]).Plain := fun hname hword he =>
    .call (.ident hname hword) (List.forall_mem_singleton.mpr he)
  apply hglobal (by decide) (by decide)
  exact hglobal (by decide) (by decide) h

/-- The template of a path is legible, if the path holds no carriage return. -/
theorem Templates.legible {path : List Char} (h : Templates arguments path segments parts)
    (hpath : '\r' ∉ path) (hplain : ∀ a ∈ arguments, (Expr.ident a.ident).Plain) :
    Legible parts where
  texts text hmem hreturn := hpath (h.restored ▸ mem_restore _ hmem hreturn)
  apart := h.apart
  values := by
    have hvalues : List.Forall₂ (fun value _ => value.Plain ∧ True) (holes parts) segments := by
      apply h.values.flip.imp
      rintro _ s ⟨a, ⟨earlier, later, rfl, -, -⟩, rfl⟩
      exact ⟨plain_encoded (hplain a (by simp)), trivial⟩
    exact ((List.forall₂_and_left _ _).mp hvalues).1

/-- The URL of a path with segments is read as the texts around them, and as the encoded values of
the arguments that fill them. -/
theorem url_read {path : String} {parameters : List ParameterDef} {url : Expr} {bound : List Nat}
    (hpath : '\r' ∉ path.toList) (hsegments : (ofPath path.toList).segments ≠ [])
    (hurl : Route.url path (parameters.map Argument.ofParameter) = .ok (url, bound)) :
    ∃ values, List.Forall₂ (fun s value => ∃ a,
        Selects (parameters.map Argument.ofParameter) s.2 a ∧
          value = .apply "encodeURIComponent" [.apply "String" [.ident a.ident]])
        (ofPath path.toList).segments values ∧
      ∀ rest texts values' rest', TemplateLiteral (url.text.toList ++ rest) texts values' rest' ↔
        texts = (ofPath path.toList).segments.map (String.ofList ·.1) ++
            [String.ofList (ofPath path.toList).tail] ∧
          values' = values ∧ rest' = rest := by
  cases hbind : Route.bind (parameters.map Argument.ofParameter) (ofPath path.toList).segments with
  | error placeholder =>
    rw [url_error_iff.mpr hbind] at hurl
    cases hurl
  | ok positions =>
    have hpositions := bind_eq_ok_iff.mp hbind
    have hsome : positions ≠ [] := by
      rintro rfl
      exact hsegments (List.forall₂_nil_right_iff.mp hpositions)
    rw [url_of_bind hbind, if_neg hsome] at hurl
    cases hurl
    have htemplate := templates_parts (ofPath path.toList).tail hpositions
    have hrestored : write (ofPath path.toList).segments (ofPath path.toList).tail = path.toList :=
      path_ofPath path.toList
    rw [hrestored] at htemplate
    have hplain : ∀ a ∈ parameters.map Argument.ofParameter, (Expr.ident a.ident).Plain := by
      rw [List.forall_mem_map]
      intro p _
      exact Expr.Plain.identifier p.name
    refine ⟨_, htemplate.values, fun rest texts values rest' => ?_⟩
    rw [(htemplate.legible hpath hplain).literal_iff, stretches_parts _ hpositions]

end Path

/-! ## All templates -/

/-- A template literal is read in one way: as the texts and the values of its parts, up to the
accent that closes it. -/
theorem template_denotes (h : Legible parts) :
    (∀ rest texts values rest',
      TemplateLiteral ((Expr.template parts).text.toList ++ rest) texts values rest' ↔
        texts = stretches parts ∧ values = holes parts ∧ rest' = rest) ∧
      weave (stretches parts) (holes parts) = parts.filter (!isEmptyText ·) :=
  ⟨fun _ _ _ _ => h.literal_iff, h.weave_stretches⟩

end ApiTypings.Render.Route

namespace ApiTypings.Shop

open TypeScript (Expr TemplatePart)
open TypeScript.Literal Render.Route

/-- A template whose texts hold accents, backslashes, braces and dollar signs, one of them before a
value. -/
def notesTemplate : List TemplatePart := [
  .text "/notes\\\x60$\x7bid\x7d$",
  .hole (.apply "encodeURIComponent" [.apply "String" [.ident "id"]]),
  .text "$\\\x7b"]

/-- The template of a path with accents, dollars and backslashes. -/
theorem template_denotes_notes : Legible notesTemplate ∧
    (Expr.template notesTemplate).text =
      "\x60/notes\\\\\\\x60\\$\x7bid\x7d$$\x7bencodeURIComponent(String(id))\x7d$\\\\\x7b\x60" ∧
    ∀ texts values rest,
      TemplateLiteral (Expr.template notesTemplate).text.toList texts values rest ↔
        texts = ["/notes\\\x60$\x7bid\x7d$", "$\\\x7b"] ∧
          values = [.apply "encodeURIComponent" [.apply "String" [.ident "id"]]] ∧ rest = [] := by
  have hlegible : Legible notesTemplate := {
    texts := by
      intro text htext
      simp only [notesTemplate, List.mem_cons, TemplatePart.text.injEq, reduceCtorEq,
        List.not_mem_nil, false_or, or_false] at htext
      rcases htext with rfl | rfl <;> decide
    apart := by decide
    values := by
      intro value hvalue
      cases List.mem_singleton.mp hvalue
      exact plain_encoded (.ident (by decide) (by decide)) }
  refine ⟨hlegible, by decide, fun texts values rest => ?_⟩
  have hread := (template_denotes hlegible).1 [] texts values rest
  rwa [List.append_nil] at hread

end ApiTypings.Shop
