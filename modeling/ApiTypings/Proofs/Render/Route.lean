import ApiTypings.Proofs.Success
import ApiTypings.Render.Route

/-!
# Segments of a path

The segments that are read from a path are its complete ones: each stands between an opening
brace and the first closing brace after it, and the next one is looked for after that. A URL is
made exactly when an argument fills each of them.
-/

namespace ApiTypings

namespace Render

/-- `Segment path placeholder` says that `path` has a complete segment with `placeholder` in its
braces. -/
inductive Segment : List Char → List Char → Prop where
  | first {before placeholder rest} : '\x7b' ∉ before → '\x7d' ∉ placeholder →
      Segment (before ++ '\x7b' :: (placeholder ++ '\x7d' :: rest)) placeholder
  | later {before placeholder rest other} : '\x7b' ∉ before → '\x7d' ∉ placeholder →
      Segment rest other →
      Segment (before ++ '\x7b' :: (placeholder ++ '\x7d' :: rest)) other

namespace Route

/-- A path is read at its first complete segment. -/
theorem ofPath_append {before placeholder : List Char} (hb : '\x7b' ∉ before)
    (hp : '\x7d' ∉ placeholder) (rest : List Char) :
    ofPath (before ++ '\x7b' :: (placeholder ++ '\x7d' :: rest)) =
      ⟨(before, placeholder) :: (ofPath rest).segments, (ofPath rest).tail⟩ := by
  have hopen := Text.cutFirst_append_cons hb (placeholder ++ '\x7d' :: rest)
  have hclose := Text.cutFirst_append_cons hp rest
  rw [ofPath]
  split
  · next hnone =>
    rw [hopen] at hnone
    cases hnone
  · next b inside hsome =>
    rw [hopen] at hsome
    cases hsome
    split
    · next hnone =>
      rw [hclose] at hnone
      cases hnone
    · next p r hsome =>
      rw [hclose] at hsome
      cases hsome
      rfl

/-- The segments that are read from a path are the complete ones. -/
theorem segment_iff_mem_ofPath {path placeholder : List Char} :
    Segment path placeholder ↔ placeholder ∈ (ofPath path).segments.map Prod.snd := by
  constructor
  · intro h
    induction h with
    | @first before placeholder rest hb hp =>
      rw [ofPath_append hb hp]
      exact List.mem_cons_self ..
    | @later before placeholder rest other hb hp _ ih =>
      rw [ofPath_append hb hp]
      exact List.mem_cons_of_mem _ ih
  · intro h
    fun_induction ofPath path with
    | case1 => cases h
    | case2 => cases h
    | case3 path before inside ho found rest hc _ after ih =>
      have hb := Text.cutFirst_not_mem ho
      have hp := Text.cutFirst_not_mem hc
      rw [Text.cutFirst_append ho, Text.cutFirst_append hc]
      rcases List.mem_cons.mp h with rfl | h
      · exact .first hb hp
      · exact .later hb hp (ih h)

/-- Whether an argument fills a segment. -/
theorem position?_isSome_iff {arguments : List Argument} {placeholder : List Char} :
    (Argument.position? arguments placeholder).isSome = true ↔
      ∃ a ∈ arguments, Text.sameIgnoringCase a.key (String.ofList (name placeholder)) = true := by
  rw [Argument.position?, List.findIdx?_isSome, List.any_eq_true]

/-- Segments are bound when each of their placeholders is. -/
theorem exists_bind_iff {arguments : List Argument} {segments : List (List Char × List Char)} :
    (∃ bound, bind arguments segments = .ok bound) ↔
      ∀ s ∈ segments, (Argument.position? arguments s.2).isSome = true := by
  induction segments with
  | nil => exact ⟨fun _ => nofun, fun _ => ⟨[], rfl⟩⟩
  | cons s rest ih =>
    obtain ⟨before, placeholder⟩ := s
    rw [List.forall_mem_cons, bind]
    cases hp : Argument.position? arguments placeholder with
    | none =>
      refine ⟨nofun, ?_⟩
      rintro ⟨hs, _⟩
      cases hs
    | some position =>
      rw [exists_ok_map, ih]
      exact ⟨fun h => ⟨rfl, h⟩, fun h => h.2⟩

/-- A URL is made exactly when each complete segment of the path names an argument. -/
theorem exists_url_iff {path : String} {arguments : List Argument} :
    (∃ made, url path arguments = .ok made) ↔
      ∀ placeholder, Segment path.toList placeholder →
        ∃ a ∈ arguments, Text.sameIgnoringCase a.key (String.ofList (name placeholder)) = true := by
  have hbind : (∃ made, url path arguments = .ok made) ↔
      ∃ bound, bind arguments (ofPath path.toList).segments = .ok bound := by
    rw [url]
    cases bind arguments (ofPath path.toList).segments with
    | error placeholder => exact ⟨nofun, nofun⟩
    | ok bound =>
      refine ⟨fun _ => ⟨bound, rfl⟩, fun _ => ?_⟩
      cases bound with
      | nil => exact ⟨_, rfl⟩
      | cons position rest => exact ⟨_, rfl⟩
  rw [hbind, exists_bind_iff]
  simp only [segment_iff_mem_ofPath, ← position?_isSome_iff, List.mem_map]
  constructor
  · rintro h placeholder ⟨s, hs, rfl⟩
    exact h s hs
  · intro h s hs
    exact h s.2 ⟨s, hs, rfl⟩

end Route

end Render

/-- Every complete segment of the path of an action names one of its parameters. -/
def ActionDef.FillsRoute (controller : String) (action : ActionDef) : Prop :=
  ∀ placeholder, Render.Segment (Render.actionPath controller action).toList placeholder →
    ∃ p ∈ action.parameters,
      Text.sameIgnoringCase p.name (String.ofList (Render.Route.name placeholder)) = true

/-- A path without braces has no segments to fill. -/
theorem ActionDef.fillsRoute_of_not_mem {controller : String} {action : ActionDef}
    (h : '\x7b' ∉ (Render.actionPath controller action).toList) : action.FillsRoute controller := by
  intro placeholder hs
  generalize (Render.actionPath controller action).toList = path at h hs
  cases hs <;> simp at h

end ApiTypings
