import ApiTypings.Reference.Cursor
import Mathlib.Computability.StateTransition

/-!
# The cursor moves on

From the boundary of a character every slice that an operation asks for exists, and the cursor is
on a boundary again afterwards. An operation that leaves the cursor where it is comes nearer to one
that moves it: the rank of what to do next goes down. So a run that comes back to the same point of
the reader has moved the cursor in the meantime.
-/

namespace ApiTypings.Reference.Cursor

open Text StateTransition

variable {text token : String} {s t : State} {rest : List Char} {yes no : Control}
  {p : Char → Bool} {next : List Char → Control}

/-! ## Operations from a boundary -/

/-- Scanning takes the characters that pass the test. -/
theorem scan_eq (h : Leaves text s.pos rest) :
    s.scan text p next =
      ⟨s.pos + byteLength (rest.takeWhile p), next (rest.takeWhile p), s.pending⟩ := by
  simp only [State.scan, h.sliceFrom?_eq, Option.bind_eq_bind, Option.bind_some,
    (h.takeWhile p).slice?_eq]
  rfl

/-- A token that comes next is eaten. -/
theorem eat_eq (h : Leaves text s.pos (token.toList ++ rest)) :
    s.eat text token yes no = ⟨s.pos + token.utf8ByteSize, yes, s.pending⟩ := by
  have hstart : startsWith token.toList (token.toList ++ rest) = true :=
    List.isPrefixOf_iff_prefix.mpr (List.prefix_append _ _)
  simp only [State.eat, h.sliceFrom?_eq, hstart, if_true]

/-- A token that does not come next is not eaten. -/
theorem eat_eq_of_ne (h : Leaves text s.pos rest) (hne : ∀ more, rest ≠ token.toList ++ more) :
    s.eat text token yes no = { s with control := no } := by
  have hstart : ¬ startsWith token.toList rest = true := by
    intro hpre
    obtain ⟨more, hmore⟩ := List.isPrefixOf_iff_prefix.mp hpre
    exact hne more hmore.symm
  simp only [State.eat, h.sliceFrom?_eq, hstart]
  rfl

/-! ## What a step keeps -/

/-- How many operations may come before the cursor moves or reading stops, at most. -/
def Control.rank : Control → Nat
  | .done _ | .failed _ | .crashed => 0
  | .position | .segment _ | .closing _ | .finish _ => 1
  | .mark | .comma _ | .trailing _ => 2
  | .reference | .afterArgument _ => 3
  | .argument _ | .read _ => 4
  | .question _ => 5
  | .brackets _ => 6
  | .suffix _ => 7
  | .opening _ => 8
  | .afterName _ => 9
  | .dot _ => 10

/-- The cursor has moved on, or it has stayed and the rank has gone down. -/
def Advances (s t : State) : Prop :=
  s.pos < t.pos ∨ s.pos = t.pos ∧ t.control.rank < s.control.rank

/-- Advancing twice is advancing. -/
theorem Advances.trans {u : State} (h : Advances s t) (h' : Advances t u) : Advances s u := by
  unfold Advances at *
  omega

/-- Advancing never moves the cursor back. -/
theorem Advances.le (h : Advances s t) : s.pos ≤ t.pos := by
  unfold Advances at h
  omega

/-- The cursor is on a boundary and no slice was missing. -/
structure Safe (text : String) (s : State) : Prop where
  boundary : ∃ rest, Leaves text s.pos rest
  control : s.control ≠ .crashed

/-- The first state is safe. -/
theorem safe_start (text : String) : Safe text .start where
  boundary := ⟨text.toList, .zero text⟩
  control := by simp [State.start]

private theorem safe_scan (h : Leaves text s.pos rest) (hnext : ∀ run, next run ≠ .crashed)
    (hrank : (next []).rank < s.control.rank) :
    Safe text (s.scan text p next) ∧ Advances s (s.scan text p next) := by
  rw [scan_eq h]
  refine ⟨⟨⟨_, h.dropWhile p⟩, hnext _⟩, ?_⟩
  by_cases hrun : rest.takeWhile p = []
  · -- Nothing was passed, so the cursor stays and the rank has to go down.
    rw [hrun]
    exact Or.inr ⟨rfl, hrank⟩
  · exact Or.inl (Nat.lt_add_of_pos_right (byteLength_pos hrun))

private theorem safe_eat (h : Leaves text s.pos rest) (htoken : token.toList ≠ [])
    (hyes : yes ≠ .crashed) (hno : no ≠ .crashed) (hrank : no.rank < s.control.rank) :
    Safe text (s.eat text token yes no) ∧ Advances s (s.eat text token yes no) := by
  by_cases hstart : ∃ more, rest = token.toList ++ more
  · obtain ⟨more, rfl⟩ := hstart
    have hpos := byteLength_pos htoken
    rw [byteLength_toList] at hpos
    rw [eat_eq h]
    exact ⟨⟨⟨more, h.token⟩, hyes⟩, Or.inl (Nat.lt_add_of_pos_right hpos)⟩
  · rw [eat_eq_of_ne h fun more he => hstart ⟨more, he⟩]
    exact ⟨⟨⟨rest, h⟩, hno⟩, Or.inr ⟨rfl, hrank⟩⟩

private theorem safe_hand (r : Reference) (h : Leaves text s.pos rest)
    (hrank : 3 < s.control.rank) :
    Safe text (s.hand r) ∧ Advances s (s.hand r) := by
  obtain ⟨pos, control, pending⟩ := s
  cases pending with
  | nil => exact ⟨⟨⟨rest, h⟩, by simp [State.hand]⟩, Or.inr ⟨rfl, Nat.lt_of_succ_lt hrank⟩⟩
  | cons generic outer => exact ⟨⟨⟨rest, h⟩, by simp [State.hand]⟩, Or.inr ⟨rfl, hrank⟩⟩

/-- From a boundary a step leads to a boundary, and the reader advances. -/
theorem safe_step (hs : Safe text s) (ht : t ∈ step text s) : Safe text t ∧ Advances s t := by
  obtain ⟨⟨rest, h⟩, _⟩ := hs
  obtain ⟨pos, control, pending⟩ := s
  -- Each control scans, eats a token, or hands on what has been read.
  cases control with
  | reference | afterName _ | afterArgument _ | suffix _ | trailing _ =>
    obtain rfl := Option.some.inj ht
    exact safe_scan h (by simp) (by simp [Control.rank])
  | position =>
    obtain rfl := Option.some.inj ht
    refine safe_scan h ?_ (by simp [Control.rank])
    intro digits
    split <;> simp
  | segment before =>
    obtain rfl := Option.some.inj ht
    refine safe_scan h ?_ (by simp [Control.rank, isSegment])
    intro segment
    split <;> simp
  | mark | dot _ | opening _ | comma _ | closing _ | brackets _ | question _ =>
    obtain rfl := Option.some.inj ht
    exact safe_eat h (by simp) (by simp) (by simp) (by simp [Control.rank])
  | argument generic =>
    obtain rfl := Option.some.inj ht
    exact ⟨⟨⟨rest, h⟩, by simp⟩, Or.inr ⟨rfl, by simp [Control.rank]⟩⟩
  | read r =>
    obtain rfl := Option.some.inj ht
    exact safe_hand r h (by simp [Control.rank])
  | finish r =>
    obtain rfl := Option.some.inj ht
    refine ⟨⟨⟨rest, h⟩, ?_⟩, Or.inr ⟨rfl, ?_⟩⟩
    · dsimp only
      split <;> simp
    · dsimp only
      split <;> simp [Control.rank]
  | done _ | failed _ | crashed => cases ht

/-! ## What a run keeps -/

/-- Runs from safe states stay safe. -/
theorem safe_of_reaches (hs : Safe text s) (h : Reaches (step text) s t) : Safe text t := by
  induction h with
  | refl => exact hs
  | tail _ ht ih => exact (safe_step ih ht).1

/-- A run of at least one step advances. -/
theorem advances_of_reaches₁ (hs : Safe text s) (h : Reaches₁ (step text) s t) :
    Advances s t := by
  induction h with
  | single ht => exact (safe_step hs ht).2
  | tail hr ht ih =>
    have hmid := safe_of_reaches hs hr.to_reflTransGen
    exact ih.trans (safe_step hmid ht).2

/-- Runs never move the cursor back. -/
theorem pos_le_of_reaches (hs : Safe text s) (h : Reaches (step text) s t) : s.pos ≤ t.pos := by
  rcases Relation.reflTransGen_iff_eq_or_transGen.mp h with rfl | h
  · exact Nat.le_refl _
  · exact (advances_of_reaches₁ hs h).le

/-- The rank at a site. -/
def Site.rank : Site → Nat
  | .segment => 1
  | .reference => 3
  | .argument => 4
  | .suffix => 7

private theorem rank_of_site? {c : Control} {site : Site} (h : c.site? = some site) :
    c.rank = site.rank := by
  cases c <;> cases h <;> rfl

/-- A run that comes back to a site has moved the cursor in the meantime. -/
theorem pos_lt_of_reaches₁ {site : Site} (hs : Safe text s) (h : Reaches₁ (step text) s t)
    (hsite : s.control.site? = some site) (hsite' : t.control.site? = some site) :
    s.pos < t.pos := by
  have hrank := (rank_of_site? hsite).trans (rank_of_site? hsite').symm
  rcases advances_of_reaches₁ hs h with hlt | ⟨_, hlt⟩
  · exact hlt
  · omega

end ApiTypings.Reference.Cursor
