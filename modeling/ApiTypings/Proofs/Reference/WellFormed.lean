import ApiTypings.Proofs.Reference.Soundness

/-!
# References that can be written

A reference can be written when every named type in it has as many arguments as its arity says
and a dotted qualified name that ends with its simple name, and when every position is a number
of 64 bits. The reader builds no other references.
-/

namespace ApiTypings

open Reference Grammar

/-- The qualified name consists of segments with dots between them, and the simple name is the
last segment. -/
def Identity.IsDotted (id : Identity) : Prop :=
  ∃ init last, Name id.qualifiedName.toList (init ++ [last]) ∧ id.name = String.ofList last

namespace Reference

mutual

/-- Arities count arguments, names are dotted, and positions are below their bound. -/
def WellFormed : Reference → Prop
  | named id args => id.arity = args.length ∧ id.IsDotted ∧ AllWellFormed args
  | param position => position < positionBound
  | array element => element.WellFormed
  | nullable inner => inner.WellFormed

/-- Each of several references is well-formed. -/
def AllWellFormed : List Reference → Prop
  | [] => True
  | r :: rs => r.WellFormed ∧ AllWellFormed rs

end

/-- References are well-formed together when each is. -/
theorem allWellFormed_iff {rs : List Reference} :
    AllWellFormed rs ↔ ∀ r ∈ rs, r.WellFormed := by
  induction rs with
  | nil => exact ⟨fun _ => nofun, fun _ => trivial⟩
  | cons r rs ih => rw [List.forall_mem_cons, AllWellFormed, ih]

/-! ## Dotted names -/

private theorem not_mem_of_isSegment {segment : List Char} (h : isSegment segment = true) :
    '.' ∉ segment := fun hdot => absurd (isNameChar_of_isSegment h '.' hdot) (by decide)

/-- A name is its segments with dots between them. -/
theorem toList_join_of_name {cs : List Char} {segments : List (List Char)}
    (h : Name cs segments) : (Text.join "." (segments.map String.ofList)).toList = cs := by
  induction h with
  | last => simp [Text.join]
  | @more segment cs segments _ h ih =>
    cases h with
    | last => simp [Text.join]
    | more =>
      simp only [List.map_cons] at ih ⊢
      rw [Text.join, String.toList_append, String.toList_append, ih]
      simp

/-- The last segment of a dotted name, and what stands before its dot if there are others. -/
theorem exists_last_of_name {cs : List Char} {segments : List (List Char)}
    (h : Name cs segments) :
    ∃ init last, segments = init ++ [last] ∧ isSegment last = true ∧
      (cs = last ∨ ∃ front, front ≠ [] ∧ cs = front ++ '.' :: last) := by
  induction h with
  | @last segment hs => exact ⟨[], segment, rfl, hs, Or.inl rfl⟩
  | @more segment cs segments hs _ ih =>
    obtain ⟨init, last, rfl, hlast, hcs⟩ := ih
    refine ⟨segment :: init, last, rfl, hlast, Or.inr ?_⟩
    rcases hcs with rfl | ⟨front, _, rfl⟩
    · exact ⟨segment, ne_nil_of_isSegment hs, rfl⟩
    · exact ⟨segment ++ '.' :: front, by simp, by simp⟩

end Reference

namespace Identity

/-- The simple name of a dotted identity is a segment. -/
theorem IsDotted.isSegment {id : Identity} (h : id.IsDotted) :
    isSegment id.name.toList = true := by
  obtain ⟨init, last, hname, hlast⟩ := h
  obtain ⟨init', last', heq, hs, _⟩ := exists_last_of_name hname
  obtain rfl : last = last' := List.cons.inj (List.append_inj' heq rfl).2 |>.1
  rw [hlast, String.toList_ofList]
  exact hs

/-- Cutting the qualified name at its last dot gives the parts back. -/
theorem ofQualified_qualifiedName {id : Identity} (h : id.IsDotted) :
    ofQualified id.qualifiedName id.arity = id := by
  have hdot := not_mem_of_isSegment h.isSegment
  obtain ⟨ns, name, arity⟩ := id
  rw [ofQualified, qualifiedName]
  by_cases hns : ns = ""
  · rw [if_pos hns, Text.cutLast_eq_none hdot, hns]
  · have hlist : (ns ++ "." ++ name).toList = ns.toList ++ '.' :: name.toList := by simp
    rw [if_neg hns, hlist, Text.cutLast_append_cons hdot]
    simp

/-- A dotted name is the qualified name of the identity that it is cut into. -/
theorem isDotted_ofQualified {cs : List Char} {segments : List (List Char)}
    (h : Name cs segments) (n : Nat) : (ofQualified (String.ofList cs) n).IsDotted := by
  obtain ⟨init, last, rfl, hlast, hcs⟩ := exists_last_of_name h
  have hdot := not_mem_of_isSegment hlast
  refine ⟨init, last, ?_, ?_⟩
  · rcases hcs with rfl | ⟨front, hne, rfl⟩
    · rw [ofQualified, String.toList_ofList, Text.cutLast_eq_none hdot]
      simpa [qualifiedName] using h
    · rw [ofQualified, String.toList_ofList, Text.cutLast_append_cons hdot]
      simpa [qualifiedName, hne] using h
  · rcases hcs with rfl | ⟨front, hne, rfl⟩
    · rw [ofQualified, String.toList_ofList, Text.cutLast_eq_none hdot]
    · rw [ofQualified, String.toList_ofList, Text.cutLast_append_cons hdot]

private theorem arity_ofQualified (qualified : String) (n : Nat) :
    (ofQualified qualified n).arity = n := by
  rw [ofQualified]
  split <;> rfl

end Identity

namespace Reference

/-- A named type made of segments is well-formed when its arguments are. -/
theorem wellFormed_ofSegments {cs : List Char} {segments : List (List Char)}
    {args : List Reference} (h : Name cs segments) (hargs : AllWellFormed args) :
    (ofSegments segments args).WellFormed := by
  have hjoin : Text.join "." (segments.map String.ofList) = String.ofList cs := by
    rw [← toList_join_of_name h, String.ofList_toList]
  rw [ofSegments, generic, hjoin, WellFormed]
  exact ⟨Identity.arity_ofQualified _ _, Identity.isDotted_ofQualified h _, hargs⟩

private theorem exists_name {segments : List (List Char)} (hne : segments ≠ [])
    (h : segments.all isSegment = true) : ∃ cs, Name cs segments := by
  induction segments with
  | nil => exact absurd rfl hne
  | cons segment segments ih =>
    rw [List.all_cons, Bool.and_eq_true] at h
    cases segments with
    | nil => exact ⟨segment, .last h.1⟩
    | cons next rest =>
      obtain ⟨cs, hcs⟩ := ih nofun h.2
      exact ⟨segment ++ '.' :: cs, .more h.1 hcs⟩

/-- A named type whose name is made of segments is well-formed when its arguments are. -/
theorem wellFormed_of_isSegment (segments : List (List Char)) (args : List Reference)
    (hne : segments ≠ []) (h : segments.all isSegment = true) (hargs : AllWellFormed args) :
    (ofSegments segments args).WellFormed := by
  obtain ⟨cs, hname⟩ := exists_name hne h
  exact wellFormed_ofSegments hname hargs

/-- Whatever is written is well-formed. -/
theorem wellFormed_of_written {cs : List Char} {r : Reference} (h : Written cs r) :
    r.WellFormed :=
  @Written.rec (fun _ r _ => r.WellFormed) (fun _ r _ => r.WellFormed)
    (fun _ args _ => AllWellFormed args)
    (fun _ ih => ih)
    (fun _ _ ih => by rwa [WellFormed])
    (fun _ _ ih => by rwa [WellFormed])
    (fun _ _ _ hlt => by rwa [WellFormed])
    (fun _ hname => wellFormed_ofSegments hname trivial)
    (fun _ hname _ _ ih => wellFormed_ofSegments hname ih)
    (fun _ _ ih => ⟨ih, trivial⟩)
    (fun _ _ _ ih ihs => ⟨ih, ihs⟩)
    cs r h

/-- What the reader returns is well-formed. -/
theorem wellFormed_of_parse {text : String} {r : Reference} (h : parse text = .ok r) :
    r.WellFormed := by
  have hwhole := whole_of_parse h
  generalize text.toList = cs at hwhole
  cases hwhole with
  | mk hw _ => exact wellFormed_of_written hw

end Reference

end ApiTypings
