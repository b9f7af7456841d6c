import ApiTypings.Proofs.Disk.Path
import ApiTypings.Proofs.Disk.Place

/-!
# Walks along paths

The components of a path lead from place to place, whatever is there. A walk on a disk follows them
if and only if there is a directory at each of these places; so a change elsewhere does not change
where a path leads.
-/

namespace ApiTypings.Disk

/-- The place that a component leads to. -/
def step (place : Place) (component : String) : Place :=
  if component = "." then place
  else if component = ".." then place.dropLast
  else place ++ [component]

/-- The place that components lead to. -/
def follow (start : Place) (components : List String) : Place := components.foldl step start

/-- The places that components lead through, the last one included. -/
def trail (start : Place) : List String → List Place
  | [] => []
  | component :: components => step start component :: trail (step start component) components

variable {d : Disk} {start p q : Place} {path name last : String} {cs : List String}

/-- Components are followed one after the other. -/
theorem follow_append (start : Place) (cs cs' : List String) :
    follow start (cs ++ cs') = follow (follow start cs) cs' := List.foldl_append

/-- A way leads through what its two parts lead through. -/
theorem trail_append (start : Place) (cs cs' : List String) :
    trail start (cs ++ cs') = trail start cs ++ trail (follow start cs) cs' := by
  induction cs generalizing start with
  | nil => rfl
  | cons c cs ih =>
    rw [List.cons_append, trail, trail, ih, List.cons_append]
    rfl

/-- A way ends at its start or at one of the places it leads through. -/
theorem follow_mem (start : Place) (cs : List String) :
    follow start cs ∈ start :: trail start cs := by
  induction cs generalizing start with
  | nil => exact List.mem_cons_self ..
  | cons c cs ih => exact List.mem_cons_of_mem _ (ih _)

/-- A name leads one place down. -/
theorem step_of_name (hdot : name ≠ ".") (hdots : name ≠ "..") : step p name = p ++ [name] := by
  rw [step, if_neg hdot, if_neg hdots]

/-- Single dots lead nowhere. -/
theorem of_mem_trail_dots (h : ∀ c ∈ cs, c = ".") : ∀ q ∈ trail start cs, q = start := by
  induction cs with
  | nil => exact fun _ hq => absurd hq List.not_mem_nil
  | cons c cs ih =>
    rw [List.forall_mem_cons] at h
    obtain ⟨rfl, h⟩ := h
    intro q hq
    rcases List.mem_cons.mp hq with rfl | hq
    · rfl
    · exact ih h q hq

/-- Dots lead nowhere. -/
theorem follow_dots (h : ∀ c ∈ cs, c = ".") : follow start cs = start := by
  rcases List.mem_cons.mp (follow_mem start cs) with heq | hmem
  · exact heq
  · exact of_mem_trail_dots h _ hmem

/-- A walk leads to a start of the place where it begins, followed by components. -/
theorem exists_of_mem_trail (h : q ∈ start :: trail start cs) :
    ∃ init names, init <+: start ∧ names ⊆ cs ∧ q = init ++ names := by
  induction cs generalizing start with
  | nil =>
    obtain rfl := List.mem_singleton.mp h
    exact ⟨q, [], List.prefix_refl q, List.nil_subset _, (List.append_nil q).symm⟩
  | cons c cs ih =>
    rcases List.mem_cons.mp h with rfl | h
    · exact ⟨q, [], List.prefix_refl q, List.nil_subset _, (List.append_nil q).symm⟩
    · obtain ⟨init, names, hinit, hnames, rfl⟩ := ih h
      have hnames' := List.subset_cons_of_subset c hnames
      unfold step at hinit
      split at hinit
      · exact ⟨init, names, hinit, hnames', rfl⟩
      split at hinit
      · exact ⟨init, names, hinit.trans (List.dropLast_prefix start), hnames', rfl⟩
      rcases List.prefix_concat_iff.mp hinit with rfl | hinit
      · exact ⟨start, c :: names, List.prefix_refl start, List.cons_subset_cons c hnames, by simp⟩
      · exact ⟨init, names, hinit, hnames', rfl⟩

/-- A walk that neither visits a place nor ends below it is never below it. -/
theorem not_below_of_not_mem (hend : ¬p <+: follow start cs) (hmem : p ∉ start :: trail start cs) :
    ∀ q ∈ start :: trail start cs, ¬p <+: q := by
  induction cs generalizing start with
  | nil =>
    intro q hq
    obtain rfl := List.mem_singleton.mp hq
    exact hend
  | cons c cs ih =>
    rw [List.mem_cons, not_or] at hmem
    have hrest := ih hend hmem.2
    -- From below a place no step leads out without visiting it.
    have hstart : ¬p <+: start := by
      rintro ⟨rest, rfl⟩
      have hne : rest ≠ [] := by
        rintro rfl
        exact hmem.1 (List.append_nil p).symm
      refine hrest _ (List.mem_cons_self ..) ?_
      unfold step
      split
      · exact List.prefix_append p rest
      split
      · rw [List.dropLast_append_of_ne_nil hne]
        exact List.prefix_append ..
      · rw [List.append_assoc]
        exact List.prefix_append ..
    exact List.forall_mem_cons.mpr ⟨hstart, hrest⟩

/-- Single dots at the end of a walk add nothing but the place where it ends. -/
theorem trail_dots {dots : List String} (hdots : ∀ c ∈ dots, c = ".") :
    ∀ q ∈ trail start (cs ++ dots), q ∈ start :: trail start cs := by
  intro q hq
  rw [trail_append] at hq
  rcases List.mem_append.mp hq with hq | hq
  · exact List.mem_cons_of_mem _ hq
  · rw [of_mem_trail_dots hdots q hq]
    exact follow_mem start cs

/-- Dots add nothing to a way but its start. -/
theorem mem_trail_dots {dots : List String} (hdots : ∀ c ∈ dots, c = ".") (hq : q ≠ start) :
    q ∈ trail start (cs ++ dots) ↔ q ∈ trail start cs := by
  constructor
  · exact fun hmem => (List.mem_cons.mp (trail_dots hdots q hmem)).resolve_left hq
  · intro hmem
    rw [trail_append]
    exact List.mem_append_left _ hmem

/-- There is a directory at each of some places. -/
def Open (d : Disk) (places : List Place) : Prop := ∀ p ∈ places, d.at? p = some .directory

/-- An open way that starts in a directory ends in one. -/
theorem Open.directory (h : d.Open (trail start cs)) (hstart : d.at? start = some .directory) :
    d.at? (follow start cs) = some .directory := by
  rcases List.mem_cons.mp (follow_mem start cs) with heq | hmem
  · rw [heq, hstart]
  · exact h _ hmem

/-- What stands above a directory is a directory. -/
theorem WellFormed.dropLast (h : d.WellFormed) (hp : d.at? p = some .directory) :
    d.at? p.dropLast = some .directory := by
  rcases List.eq_nil_or_concat p with rfl | ⟨init, name, rfl⟩
  · exact hp
  · rw [List.concat_eq_append] at hp
    rw [List.concat_eq_append, List.dropLast_concat]
    exact h.parent _ _ _ hp

/-- A component is entered if it leads to a directory. -/
theorem enter_eq_ok (h : d.WellFormed) (hstep : d.at? (step p name) = some .directory) :
    d.enter p name = .ok (step p name) := by
  rw [enter]
  by_cases hdot : name = "."
  · rw [if_pos hdot, step, if_pos hdot]
  · by_cases hdots : name = ".."
    · rw [if_neg hdot, if_pos hdots, step, if_neg hdot, if_pos hdots]
    · rw [step_of_name hdot hdots] at hstep ⊢
      have hshort := (h.name _ _ _ hstep).short
      rw [if_neg hdot, if_neg hdots, if_neg (Nat.not_lt.mpr hshort), hstep]

/-- A walk through directories goes where the components lead. -/
theorem foldlM_enter (h : d.WellFormed) (hopen : d.Open (trail start cs)) :
    cs.foldlM d.enter start = .ok (follow start cs) := by
  induction cs generalizing start with
  | nil => rfl
  | cons c cs ih =>
    rw [List.foldlM_cons, enter_eq_ok h (hopen _ (List.mem_cons_self ..))]
    exact ih fun q hq => hopen q (List.mem_cons_of_mem _ hq)

/-- A walk that meets no file stops at the first place where there is nothing. -/
theorem foldlM_enter_notFound (h : d.WellFormed) (hstart : d.at? start = some .directory)
    (hshort : ∀ c ∈ cs, c.utf8ByteSize ≤ maxName)
    (hpass : ∀ p ∈ trail start cs, d.at? p = none ∨ d.at? p = some .directory)
    (hclosed : ¬d.Open (trail start cs)) : cs.foldlM d.enter start = .error .notFound := by
  induction cs generalizing start with
  | nil => exact absurd (fun _ hq => absurd hq List.not_mem_nil) hclosed
  | cons c cs ih =>
    rw [List.forall_mem_cons] at hshort
    rw [List.foldlM_cons]
    rcases hpass _ (List.mem_cons_self ..) with hnone | hdir
    · have hdot : c ≠ "." := by
        rintro rfl
        rw [step, if_pos rfl, hstart] at hnone
        cases hnone
      have hdots : c ≠ ".." := by
        rintro rfl
        rw [step, if_neg (by decide), if_pos rfl, h.dropLast hstart] at hnone
        cases hnone
      rw [step_of_name hdot hdots] at hnone
      rw [enter, if_neg hdot, if_neg hdots, if_neg (Nat.not_lt.mpr hshort.1), hnone]
      rfl
    · rw [enter_eq_ok h hdir]
      refine ih hdir hshort.2 (fun q hq => hpass q (List.mem_cons_of_mem _ hq)) fun hopen => ?_
      exact hclosed (List.forall_mem_cons.mpr ⟨hdir, hopen⟩)

end ApiTypings.Disk
