import ApiTypings.Text.Blank

/-!
# Cutting and joining text

A cut takes a text apart at a separator, at its first or at its last occurrence; joining puts
pieces together with a separator between any two neighbours. A cut loses exactly the separator
it cuts at (`cutFirst_append`, `cutLast_append`).
-/

namespace ApiTypings.Text

/-- The text before and after the first `sep`, if there is one. -/
def cutFirst (sep : Char) : List Char → Option (List Char × List Char)
  | [] => none
  | c :: cs =>
    if c = sep then some ([], cs)
    else (cutFirst sep cs).map fun (before, after) => (c :: before, after)

/-- The text before and after the last `sep`, if there is one. -/
def cutLast (sep : Char) : List Char → Option (List Char × List Char)
  | [] => none
  | c :: cs =>
    match cutLast sep cs with
    | some (before, after) => some (c :: before, after)
    | none => if c = sep then some ([], cs) else none

/-- The pieces between the separators: one more than there are separators. -/
def split (sep : Char) : List Char → List (List Char)
  | [] => [[]]
  | c :: cs =>
    if c = sep then [] :: split sep cs
    else
      match split sep cs with
      | piece :: pieces => (c :: piece) :: pieces
      | [] => [[c]]

/-- The pieces one after the other, with `sep` between two neighbours. -/
def join (sep : String) : List String → String
  | [] => ""
  | [s] => s
  | s :: t :: rest => s ++ sep ++ join sep (t :: rest)

/-- `s` with ASCII capital letters made small; every other character is kept. -/
def lower (s : String) : String := String.ofList (s.toList.map Char.toLower)

/-- Two texts that differ at most in the case of ASCII letters. -/
def sameIgnoringCase (s t : String) : Bool := lower s == lower t

/-- The number of bytes that `cs` takes in UTF-8. -/
def byteLength (cs : List Char) : Nat := cs.foldr (fun c n => c.utf8Size + n) 0

/-- Whether `cs` begins with `start`. -/
def startsWith (start cs : List Char) : Bool := start.isPrefixOf cs

/-- A rest of `cs` that is strictly shorter than `cs`. -/
abbrev Remainder (cs : List Char) := { rest : List Char // rest.length < cs.length }

/-- A rest, if it is strictly shorter than the text. -/
def remainder? (cs rest : List Char) : Option (Remainder cs) :=
  if h : rest.length < cs.length then some ⟨rest, h⟩ else none

/-- Joining brings in no characters but those of the pieces and the separator. -/
theorem not_mem_join {c : Char} {sep : String} (hsep : c ∉ sep.toList) {pieces : List String}
    (h : ∀ s ∈ pieces, c ∉ s.toList) : c ∉ (join sep pieces).toList := by
  fun_induction join sep pieces with
  | case1 => exact List.not_mem_nil
  | case2 s => exact h s (List.mem_singleton_self s)
  | case3 s t rest ih =>
    rw [List.forall_mem_cons] at h
    rw [String.toList_append, String.toList_append, List.mem_append, List.mem_append, not_or,
      not_or]
    exact ⟨⟨h.1, hsep⟩, ih h.2⟩

/-- A cut at the first `sep` loses that separator and nothing else. -/
theorem cutFirst_append {sep : Char} {cs before after : List Char}
    (h : cutFirst sep cs = some (before, after)) : cs = before ++ sep :: after := by
  induction cs generalizing before with
  | nil => simp [cutFirst] at h
  | cons c cs ih =>
    rw [cutFirst] at h
    split at h
    · next hc => simp_all
    · obtain ⟨⟨b, a⟩, hb, he⟩ := Option.map_eq_some_iff.mp h
      cases he
      simp [ih hb]

/-- The part before the first `sep` holds no `sep`. -/
theorem cutFirst_not_mem {sep : Char} {cs before after : List Char}
    (h : cutFirst sep cs = some (before, after)) : sep ∉ before := by
  induction cs generalizing before with
  | nil => simp [cutFirst] at h
  | cons c cs ih =>
    rw [cutFirst] at h
    split at h
    · simp_all
    · next hc =>
      obtain ⟨⟨b, a⟩, hb, he⟩ := Option.map_eq_some_iff.mp h
      cases he
      simp [ih hb, Ne.symm hc]

/-- The first `sep` is the one that no other stands before. -/
theorem cutFirst_append_cons {sep : Char} {before : List Char} (h : sep ∉ before)
    (after : List Char) : cutFirst sep (before ++ sep :: after) = some (before, after) := by
  induction before with
  | nil => rw [List.nil_append, cutFirst, if_pos rfl]
  | cons c before ih =>
    rw [List.mem_cons, not_or] at h
    rw [List.cons_append, cutFirst, if_neg (Ne.symm h.1), ih h.2]
    rfl

/-- A text without the separator is not cut. -/
theorem cutFirst_eq_none_iff {sep : Char} {cs : List Char} :
    cutFirst sep cs = none ↔ sep ∉ cs := by
  constructor
  · intro h hmem
    obtain ⟨before, after, rfl, hb⟩ := List.eq_append_cons_of_mem hmem
    rw [cutFirst_append_cons hb] at h
    cases h
  · intro h
    cases hc : cutFirst sep cs with
    | none => rfl
    | some cut =>
      rw [cutFirst_append hc] at h
      simp at h

/-- What follows a cut is shorter than the text that was cut. -/
theorem length_lt_of_cutFirst {sep : Char} {cs before after : List Char}
    (h : cutFirst sep cs = some (before, after)) : after.length < cs.length := by
  rw [cutFirst_append h]
  simp
  omega

/-- A cut at the last `sep` loses that separator and nothing else. -/
theorem cutLast_append {sep : Char} {cs before after : List Char}
    (h : cutLast sep cs = some (before, after)) : cs = before ++ sep :: after := by
  induction cs generalizing before after with
  | nil => simp [cutLast] at h
  | cons c cs ih =>
    rw [cutLast] at h
    split at h
    · next hb => cases h; simp [ih hb]
    · split at h
      · next hc => simp_all
      · simp at h

/-- A text without the separator is not cut at its last. -/
theorem cutLast_eq_none {sep : Char} {cs : List Char} (h : sep ∉ cs) : cutLast sep cs = none := by
  induction cs with
  | nil => rfl
  | cons c cs ih =>
    rw [List.mem_cons, not_or] at h
    rw [cutLast, ih h.2, if_neg (Ne.symm h.1)]

/-- The last `sep` is the one that no other follows. -/
theorem cutLast_append_cons {sep : Char} {after : List Char} (h : sep ∉ after)
    (before : List Char) : cutLast sep (before ++ sep :: after) = some (before, after) := by
  induction before with
  | nil => rw [List.nil_append, cutLast, cutLast_eq_none h, if_pos rfl]
  | cons c before ih => rw [List.cons_append, cutLast, ih]

end ApiTypings.Text
