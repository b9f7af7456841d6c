import ApiTypings.Proofs.Render.Route
import Mathlib.Data.List.DropRight

/-!
# How a path is taken apart

A path is a run of segments, each an opening brace and what follows it up to the next closing one,
with text between them and behind the last. `Reads` and `Names` say this of the path and of the
name in a segment without the reader. There is one way only to take a path apart, and one name in
each segment, and they are what the reader finds.
-/

namespace ApiTypings.Render

namespace Route

/-- `Reads path route` says what reading the path from the left finds. -/
inductive Reads : List Char → Route → Prop where
  /-- No brace that opens is closed behind it. -/
  | tail {text} : (∀ before inside, text = before ++ '\x7b' :: inside → '\x7d' ∉ inside) →
      Reads text ⟨[], text⟩
  /-- The first brace that opens and the first one behind it that closes. -/
  | segment {before placeholder rest route} : '\x7b' ∉ before → '\x7d' ∉ placeholder →
      Reads rest route →
      Reads (before ++ '\x7b' :: (placeholder ++ '\x7d' :: rest))
        ⟨(before, placeholder) :: route.segments, route.tail⟩

/-- `Names placeholder name` says that `name` stands in a segment before the first colon, behind
leading stars and in front of trailing question marks. -/
inductive Names : List Char → List Char → Prop where
  | intro {stars name marks rest} : (∀ c ∈ stars, c = '*') → (∀ c ∈ marks, c = '?') →
      (∀ c ∈ rest.head?, c = ':') → ':' ∉ name → (∀ c ∈ name.head?, c ≠ '*') →
      (∀ c ∈ name.getLast?, c ≠ '?') → Names (stars ++ (name ++ marks) ++ rest) name

private theorem ofPath_of_open {text : List Char}
    (h : ∀ before inside, text = before ++ '\x7b' :: inside → '\x7d' ∉ inside) :
    ofPath text = ⟨[], text⟩ := by
  rw [ofPath]
  split
  · rfl
  · next before inside ho =>
    split
    · rfl
    · next placeholder rest hc =>
      refine absurd ?_ (h before inside (Text.cutFirst_append ho))
      rw [Text.cutFirst_append hc]
      simp

/-- Behind a brace that is not closed no other is. -/
theorem not_mem_of_open {before inside before' inside' : List Char} (hb : '\x7b' ∉ before)
    (hi : '\x7d' ∉ inside) (heq : before ++ '\x7b' :: inside = before' ++ '\x7b' :: inside') :
    '\x7d' ∉ inside' := by
  intro hmem
  rcases List.append_eq_append_iff.mp heq with ⟨between, _, hin⟩ | ⟨between, hbefore, hin⟩
  · have hlater : '\x7d' ∈ '\x7b' :: inside := by
      rw [hin]
      simp [hmem]
    simp [hi] at hlater
  · cases between with
    | nil =>
      cases hin
      exact hi hmem
    | cons c between =>
      -- The other brace would open in front of the first one.
      cases hin
      simp [hbefore] at hb

/-- A path is read as its segments and its tail. -/
theorem reads_ofPath (path : List Char) : Reads path (ofPath path) := by
  fun_induction ofPath path with
  | case1 path ho =>
    refine .tail fun before inside heq => ?_
    rw [Text.cutFirst_eq_none_iff, heq] at ho
    simp at ho
  | case2 path before inside ho hc =>
    refine .tail fun before' inside' heq => ?_
    rw [Text.cutFirst_append ho] at heq
    exact not_mem_of_open (Text.cutFirst_not_mem ho) (Text.cutFirst_eq_none_iff.mp hc) heq
  | case3 path before inside ho placeholder rest hc _ after ih =>
    rw [Text.cutFirst_append ho, Text.cutFirst_append hc]
    exact .segment (Text.cutFirst_not_mem ho) (Text.cutFirst_not_mem hc) ih

/-- There is one way to take a path apart. -/
theorem reads_iff {path : List Char} {route : Route} :
    Reads path route ↔ route = ofPath path := by
  constructor
  · intro h
    induction h with
    | tail hopen => exact (ofPath_of_open hopen).symm
    | segment hb hp _ ih => rw [ofPath_append hb hp, ih]
  · rintro rfl
    exact reads_ofPath path

/-! ## Names of segments -/

private theorem dropWhile_eq_self {p : Char → Bool} {cs : List Char}
    (h : ∀ c ∈ cs.head?, p c = false) :
    cs.dropWhile p = cs := by
  cases cs with
  | nil => rfl
  | cons c cs => rw [List.dropWhile_cons, h c rfl, if_neg Bool.false_ne_true]

private theorem name_append {named rest : List Char} (hn : ':' ∉ named)
    (hr : ∀ c ∈ rest.head?, c = ':') :
    name (named ++ rest) = (named.dropWhile (· == '*')).rdropWhile (· == '?') := by
  cases rest with
  | nil =>
    rw [List.append_nil, name, Text.cutFirst_eq_none_iff.mpr hn]
    rfl
  | cons c rest =>
    obtain rfl := hr c rfl
    rw [name, Text.cutFirst_append_cons hn]
    rfl

/-- What is left of a name between stars and question marks. -/
theorem trim_name {stars n marks : List Char} (hs : ∀ c ∈ stars, c = '*')
    (hm : ∀ c ∈ marks, c = '?') (hfirst : ∀ c ∈ n.head?, c ≠ '*')
    (hlast : ∀ c ∈ n.getLast?, c ≠ '?') :
    ((stars ++ (n ++ marks)).dropWhile (· == '*')).rdropWhile (· == '?') = n := by
  have hstart : ∀ c ∈ (n ++ marks).head?, (c == '*') = false := by
    intro c hc
    cases n with
    | nil =>
      rw [hm c (List.mem_of_head? hc)]
      decide
    | cons d n =>
      rw [beq_eq_false_iff_ne]
      exact hfirst c hc
  have hend : ∀ c ∈ n.reverse.head?, (c == '?') = false := by
    intro c hc
    rw [List.head?_reverse] at hc
    rw [beq_eq_false_iff_ne]
    exact hlast c hc
  rw [List.dropWhile_append_of_pos fun c hc => beq_iff_eq.mpr (hs c hc), dropWhile_eq_self hstart,
    List.rdropWhile, List.reverse_append,
    List.dropWhile_append_of_pos fun c hc => beq_iff_eq.mpr (hm c (List.mem_reverse.mp hc)),
    dropWhile_eq_self hend, List.reverse_reverse]

private theorem head?_dropWhile {p : Char → Bool} {cs : List Char} :
    ∀ c ∈ (cs.dropWhile p).head?, p c = false := by
  intro c hc
  have h := List.head?_dropWhile_not p cs
  rw [hc] at h
  exact h

private theorem getLast?_rdropWhile {p : Char → Bool} {cs : List Char} :
    ∀ c ∈ (cs.rdropWhile p).getLast?, p c = false := by
  intro c hc
  rw [List.rdropWhile, List.getLast?_reverse] at hc
  exact head?_dropWhile c hc

/-- A placeholder's name ends before its colon. -/
theorem names_append {named rest : List Char} (hn : ':' ∉ named)
    (hr : ∀ c ∈ rest.head?, c = ':') :
    Names (named ++ rest) ((named.dropWhile (· == '*')).rdropWhile (· == '?')) := by
  obtain ⟨unstarred, hu⟩ : ∃ cs, cs = named.dropWhile (· == '*') := ⟨_, rfl⟩
  have hstars : named.takeWhile (· == '*') ++ unstarred = named := by
    rw [hu, List.takeWhile_append_dropWhile]
  have hmarks : unstarred.rdropWhile (· == '?') ++ unstarred.rtakeWhile (· == '?') = unstarred :=
    List.rdropWhile_append_rtakeWhile
  have hwhole : named.takeWhile (· == '*') ++
      (unstarred.rdropWhile (· == '?') ++ unstarred.rtakeWhile (· == '?')) = named := by
    rw [hmarks, hstars]
  rw [← hu]
  rw [← hwhole] at hn ⊢
  refine .intro ?stars ?marks hr ?colon ?first ?last
  case stars =>
    intro c hc
    simpa using List.mem_takeWhile_imp hc
  case marks =>
    intro c hc
    simpa using List.mem_rtakeWhile_imp hc
  case colon =>
    exact fun hmem => hn (List.mem_append_right _ (List.mem_append_left _ hmem))
  case first =>
    intro c hc
    have hhead : c ∈ unstarred.head? := by
      rw [← hmarks, List.head?_append, hc]
      rfl
    rw [hu] at hhead
    simpa using head?_dropWhile c hhead
  case last =>
    intro c hc
    simpa using getLast?_rdropWhile c hc

/-- A segment has one name. -/
theorem names_iff {placeholder n : List Char} : Names placeholder n ↔ n = name placeholder := by
  constructor
  · rintro ⟨hs, hm, hr, hn, hfirst, hlast⟩
    rw [name_append ?_ hr, trim_name hs hm hfirst hlast]
    simp only [List.mem_append, not_or]
    exact ⟨fun h => absurd (hs _ h) (by decide), hn, fun h => absurd (hm _ h) (by decide)⟩
  · rintro rfl
    cases hc : Text.cutFirst ':' placeholder with
    | none =>
      have hn := Text.cutFirst_eq_none_iff.mp hc
      have hr : ∀ c ∈ ([] : List Char).head?, c = ':' := by simp
      have h := names_append hn hr
      rwa [← name_append hn hr, List.append_nil] at h
    | some cut =>
      obtain ⟨named, rest⟩ := cut
      have hn := Text.cutFirst_not_mem hc
      have hr : ∀ c ∈ (':' :: rest).head?, c = ':' := by simp
      rw [Text.cutFirst_append hc, name_append hn hr]
      exact names_append hn hr

end Route

end ApiTypings.Render
