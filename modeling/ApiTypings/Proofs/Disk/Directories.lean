import ApiTypings.Proofs.Disk.Operations

/-!
# Making a directory and those above it

A directory is made together with those it stands in, as far as they are missing, wherever the path
meets no file. Nothing else changes: `makeDirectories_grown`.
-/

namespace ApiTypings.Disk

variable {d : Disk} {p q : Place} {path last : String} {cs : List String}

/-- The disk `d'` is `d` with a directory made at each of some places where nothing was. -/
structure Grown (d d' : Disk) (places : List Place) : Prop where
  wellFormed : d'.WellFormed
  current : d'.current = d.current
  at? : ∀ q, d'.at? q = if q ∈ places ∧ d.at? q = none then some .directory else d.at? q

namespace Grown

variable {d' d'' : Disk} {ps ps' : List Place}

/-- A disk has grown by nothing. -/
theorem refl (hd : d.WellFormed) : d.Grown d [] :=
  ⟨hd, rfl, fun q => by rw [if_neg fun h => absurd h.1 List.not_mem_nil]⟩

/-- Growing twice is growing by both. -/
theorem trans (h : d.Grown d' ps) (h' : d'.Grown d'' ps') : d.Grown d'' (ps ++ ps') where
  wellFormed := h'.wellFormed
  current := h'.current.trans h.current
  at? := by
    intro q
    rw [h'.at?, h.at?]
    by_cases hnone : d.at? q = none
    · by_cases hq : q ∈ ps <;> simp [hnone, hq]
    · simp [hnone]

/-- Only the places where nothing was matter. -/
theorem congr (h : d.Grown d' ps) (heq : ∀ q, d.at? q = none → (q ∈ ps ↔ q ∈ ps')) :
    d.Grown d' ps' where
  wellFormed := h.wellFormed
  current := h.current
  at? := by
    intro q
    rw [h.at?]
    by_cases hnone : d.at? q = none
    · simp only [hnone, and_true, heq q hnone]
    · rw [if_neg fun hq => hnone hq.2, if_neg fun hq => hnone hq.2]

/-- A directory stays. -/
theorem at?_directory (h : d.Grown d' ps) (hq : d.at? q = some .directory) :
    d'.at? q = some .directory := by
  rw [h.at?, hq, if_neg (by simp)]

/-- At the places there are directories afterwards, unless there was a file. -/
theorem open_of_pass (h : d.Grown d' ps)
    (hpass : ∀ q ∈ ps, d.at? q = none ∨ d.at? q = some .directory) : d'.Open ps := by
  intro q hq
  rcases hpass q hq with hnone | hdir
  · rw [h.at?, if_pos ⟨hq, hnone⟩]
  · exact h.at?_directory hdir

/-- Growing moves no origin. -/
theorem origin_eq (h : d.Grown d' ps) (path : String) : d'.origin path = d.origin path := by
  rw [origin, origin, h.current]

/-- Growing changes nothing about where paths lead. -/
theorem leads_eq (h : d.Grown d' ps) (path : String) : d'.leads path = d.leads path := by
  rw [leads, leads, h.origin_eq]

end Grown

/-- Ensuring a directory fails only where none can be made and none is there. -/
theorem run_ensureDirectory (path : String) (d : Disk) :
    (fileSystem.ensureDirectory path).run d =
      match d.makeDirectory path with
      | .ok d' => (.ok (), d')
      | .error fault => (if d.isDirectory path then .ok () else .error fault, d) := by
  simp only [FileSystem.ensureDirectory, fileSystem, attempt, StateT.run, bind, StateT.bind]
  cases d.makeDirectory path with
  | ok d' => rfl
  | error fault => rfl

private theorem run_makeDirectories_of_ensured {d' : Disk} (hne : path ≠ "")
    (hrun : (fileSystem.ensureDirectory path).run d = (.ok (), d')) :
    (fileSystem.makeDirectories path).run d = (.ok (), d') := by
  rw [FileSystem.makeDirectories, if_neg hne, run_bind_of_run hrun]
  rfl

private theorem run_makeDirectories_of_parent {d' d'' : Disk} {parent : String} (hne : path ≠ "")
    (hmissing : (fileSystem.ensureDirectory path).run d = (.error .notFound, d))
    (hparent : Path.parent? path = some parent) (hshorter : parent.length < path.length)
    (hrun : (fileSystem.makeDirectories parent).run d = (.ok (), d'))
    (hensured : (fileSystem.ensureDirectory path).run d' = (.ok (), d'')) :
    (fileSystem.makeDirectories path).run d = (.ok (), d'') := by
  rw [FileSystem.makeDirectories, if_neg hne, run_bind_of_run hmissing]
  simp only [hparent, if_pos hshorter]
  rw [run_bind_of_run hrun]
  exact hensured

/-- Below directories, a directory is made where nothing is, and kept where one is. -/
theorem ensureDirectory_grown (h : IsPath path cs last) (hd : d.WellFormed)
    (hopen : d.Open (trail (d.origin path) cs)) (horigin : d.at? (d.origin path) = some .directory)
    (hat : d.at? (d.leads path) = none ∨ d.at? (d.leads path) = some .directory) :
    ∃ d', (fileSystem.ensureDirectory path).run d = (.ok (), d') ∧ d.Grown d' [d.leads path] := by
  rcases hat with hnone | hdir
  · obtain ⟨hparent, hname, hleads⟩ := leads_of_nothing h hd hopen horigin hnone
    refine ⟨d.put (d.leads path) .directory, ?_, ?_, rfl, ?_⟩
    · rw [run_ensureDirectory, makeDirectory_nothing h hd hopen hnone]
    · rw [hleads]
      exact hd.put hparent hname (.inl rfl)
    · intro q
      rw [at?_put (by simp [hleads])]
      by_cases hq : q = d.leads path
      · rw [if_pos hq, if_pos ⟨List.mem_singleton.mpr hq, hq ▸ hnone⟩]
      · rw [if_neg hq, if_neg fun hmem => hq (List.mem_singleton.mp hmem.1)]
  · refine ⟨d, ?_, hd, rfl, ?_⟩
    · have hfound : d.isDirectory path = true := by
        rw [isDirectory, find_directory h hd hopen hdir]
        rfl
      rw [run_ensureDirectory, makeDirectory_something h hd hopen hdir]
      simp only [hfound, if_true]
    · intro q
      rw [if_neg]
      rintro ⟨hmem, hnone⟩
      rw [List.mem_singleton.mp hmem, hdir] at hnone
      cases hnone

/-- Behind a file-free path with something missing, no directory can be made yet. -/
theorem run_ensureDirectory_missing (h : IsPath path cs last) (hd : d.WellFormed)
    (horigin : d.at? (d.origin path) = some .directory)
    (hshort : ∀ c ∈ cs, c.utf8ByteSize ≤ maxName)
    (hpass : ∀ q ∈ trail (d.origin path) cs, d.at? q = none ∨ d.at? q = some .directory)
    (hclosed : ¬d.Open (trail (d.origin path) cs)) :
    (fileSystem.ensureDirectory path).run d = (.error .notFound, d) := by
  have hresolve : d.resolve path = .error .notFound := by
    rw [h.resolve_start, foldlM_enter_notFound hd horigin hshort hpass hclosed]
    rfl
  have hmake : d.makeDirectory path = .error .notFound := by
    simp only [makeDirectory, hresolve, bind, Except.bind]
  have hfind : d.isDirectory path = false := by
    simp only [isDirectory, find, hresolve, bind, Except.bind]
  rw [run_ensureDirectory, hmake]
  simp only [hfind, Bool.false_eq_true, if_false]

/-- A path without components leads to the root, which is there. -/
theorem run_ensureDirectory_root (hempty : Path.components path = []) (hne : path ≠ "")
    (hnull : '\x00' ∉ path.toList) (hsize : path.utf8ByteSize < maxPath) :
    (fileSystem.ensureDirectory path).run d = (.ok (), d) := by
  have hcontains : path.toList.contains '\x00' = false := by simpa using hnull
  have hresolve : d.resolve path = .ok ⟨[], ".", true⟩ := by
    rw [resolve, hcontains, if_neg Bool.false_ne_true, if_neg hne, if_neg (Nat.not_le.mpr hsize)]
    simp only [hempty, List.getLast?_nil]
  have hmake : d.makeDirectory path = .error .alreadyExists := by
    simp only [makeDirectory, hresolve, bind, Except.bind]
    rfl
  have hfind : d.isDirectory path = true := by
    simp only [isDirectory, find, hresolve, bind, Except.bind]
    rfl
  rw [run_ensureDirectory, hmake]
  simp only [hfind, if_true]

/-- A path along which directories may be made: it is neither malformed nor too long, starts at a
directory and meets no file. -/
structure Clear (d : Disk) (path : String) : Prop where
  null : '\x00' ∉ path.toList
  short : path.utf8ByteSize < maxPath
  trimmed : Path.Trimmed path
  origin : d.at? (d.origin path) = some .directory
  shortNames : ∀ c ∈ Path.components path, c.utf8ByteSize ≤ maxName
  passable : ∀ q ∈ trail (d.origin path) (Path.components path),
    d.at? q = none ∨ d.at? q = some .directory

namespace Clear

variable (h : d.Clear path) (hcs : Path.components path = cs ++ [last])

include h hcs

/-- A clear path with components ends in the last of them. -/
theorem isPath : IsPath path cs last :=
  ⟨hcs, h.null, h.short, h.shortNames last (by simp [hcs])⟩

/-- The path leads through the places of its components before the last, and then to its own. -/
theorem trail_eq : trail (d.origin path) (cs ++ [last]) =
    trail (d.origin path) cs ++ [d.leads path] := by
  rw [trail_append, (h.isPath hcs).leads_eq]
  rfl

private theorem passable_before :
    ∀ q ∈ trail (d.origin path) cs, d.at? q = none ∨ d.at? q = some .directory := by
  intro q hq
  apply h.passable
  rw [hcs, trail_append]
  exact List.mem_append_left _ hq

private theorem passable_leads :
    d.at? (d.leads path) = none ∨ d.at? (d.leads path) = some .directory := by
  apply h.passable
  rw [hcs, h.trail_eq hcs]
  exact List.mem_append_right _ (List.mem_singleton_self _)

variable {parent : String} (hparent : Path.IsParent parent path cs)

include hparent

omit hcs in
/-- If the places before the last component are not all there, then the parent starts where the path
does. -/
theorem origin_parent (hclosed : ¬d.Open (trail (d.origin path) cs)) :
    d.origin parent = d.origin path := by
  obtain ⟨dots, hbefore, hdots⟩ := hparent.components
  have hne : parent ≠ "" := by
    rintro rfl
    refine hclosed fun q hq => ?_
    have hcs' : cs = dots := hbefore
    rw [of_mem_trail_dots (hcs' ▸ hdots) q hq, h.origin]
  rw [Disk.origin, Disk.origin, hparent.isAbsolute_eq hne]

/-- The parent is as clear. -/
theorem clear_parent (hclosed : ¬d.Open (trail (d.origin path) cs)) : d.Clear parent := by
  have horigin := h.origin_parent hparent hclosed
  obtain ⟨dots, hbefore, -⟩ := hparent.components
  exact
    { null := fun hmem => h.null (hparent.isPrefix.subset hmem)
      short := Nat.lt_of_le_of_lt hparent.utf8ByteSize_le h.short
      trimmed := hparent.trimmed
      origin := horigin ▸ h.origin
      shortNames := fun c hc => h.shortNames c (by simp [hcs, hbefore, hc])
      passable := by
        intro q hq
        apply h.passable_before hcs
        rw [hbefore, trail_append]
        exact List.mem_append_left _ (horigin ▸ hq) }

omit h hcs in
/-- The parent's path leads through the same places, except for the one where it starts. -/
theorem mem_trail_parent (hq : q ≠ p) :
    q ∈ trail p (Path.components parent) ↔ q ∈ trail p cs := by
  obtain ⟨dots, hbefore, hdots⟩ := hparent.components
  rw [hbefore, mem_trail_dots hdots hq]

/-- Once the parent is there, the path is open up to its last component. -/
theorem grown_of_parent {d' : Disk}
    (hgrown : d.Grown d' (trail (d.origin path) (Path.components parent))) :
    ∃ d'', (fileSystem.ensureDirectory path).run d' = (.ok (), d'') ∧
      d.Grown d'' (trail (d.origin path) (Path.components path)) := by
  have hgrown' : d.Grown d' (trail (d.origin path) cs) := by
    refine hgrown.congr fun q hnone => mem_trail_parent hparent ?_
    rintro rfl
    rw [h.origin] at hnone
    cases hnone
  have horigin : d'.at? (d'.origin path) = some .directory := by
    rw [hgrown.origin_eq, hgrown.at?_directory h.origin]
  have hopen : d'.Open (trail (d'.origin path) cs) := by
    rw [hgrown.origin_eq]
    exact hgrown'.open_of_pass (h.passable_before hcs)
  have hat : d'.at? (d'.leads path) = none ∨ d'.at? (d'.leads path) = some .directory := by
    rw [hgrown.leads_eq, hgrown.at?]
    split
    · exact .inr rfl
    · exact h.passable_leads hcs
  obtain ⟨d'', hrun, hlast⟩ :=
    ensureDirectory_grown (h.isPath hcs) hgrown.wellFormed hopen horigin hat
  rw [hgrown.leads_eq] at hlast
  refine ⟨d'', hrun, ?_⟩
  rw [hcs, h.trail_eq hcs]
  exact hgrown'.trans hlast

omit hparent in
/-- Below directories only the last directory has to be made. -/
theorem makeDirectories_of_open (hd : d.WellFormed) (hopen : d.Open (trail (d.origin path) cs)) :
    ∃ d', (fileSystem.makeDirectories path).run d = (.ok (), d') ∧
      d.Grown d' (trail (d.origin path) (Path.components path)) := by
  have hpath := h.isPath hcs
  obtain ⟨d', hrun, hgrown⟩ :=
    ensureDirectory_grown hpath hd hopen h.origin (h.passable_leads hcs)
  refine ⟨d', run_makeDirectories_of_ensured hpath.ne_empty hrun, hgrown.congr ?_⟩
  intro q hnone
  rw [hcs, h.trail_eq hcs, List.mem_append, or_iff_right]
  intro hq
  rw [hopen q hq] at hnone
  cases hnone

end Clear

/-- Making a directory and those above it makes exactly the missing ones. -/
theorem makeDirectories_grown (hd : d.WellFormed) (h : d.Clear path) :
    ∃ d', (fileSystem.makeDirectories path).run d = (.ok (), d') ∧
      d.Grown d' (trail (d.origin path) (Path.components path)) := by
  induction hlength : path.length using Nat.strongRecOn generalizing path with
  | ind n ih =>
    have hclosed : ∀ cs last, Path.components path = cs ++ [last] → last ≠ "." →
        ¬d.Open (trail (d.origin path) cs) →
        ∃ d', (fileSystem.makeDirectories path).run d = (.ok (), d') ∧
          d.Grown d' (trail (d.origin path) (Path.components path)) := by
      intro cs last hcs hdot hclosed
      have hpath := h.isPath hcs
      obtain ⟨parent, hparent?, hparent⟩ := Path.exists_parent hcs hdot
      obtain ⟨d', hrun, hgrown⟩ :=
        ih parent.length (hlength ▸ hparent.shorter) (h.clear_parent hcs hparent hclosed) rfl
      rw [h.origin_parent hparent hclosed] at hgrown
      obtain ⟨d'', hensured, hall⟩ := h.grown_of_parent hcs hparent hgrown
      have hmissing := run_ensureDirectory_missing hpath hd h.origin
        (fun c hc => h.shortNames c (by simp [hcs, hc])) (h.passable_before hcs) hclosed
      exact ⟨d'', run_makeDirectories_of_parent hpath.ne_empty hmissing hparent? hparent.shorter
        hrun hensured, hall⟩
    rcases h.trimmed with hempty | hdot | ⟨cs, last, hcs, hlast⟩
    · rw [hempty]
      refine ⟨d, ?_, Grown.refl hd⟩
      by_cases hne : path = ""
      · rw [hne, FileSystem.makeDirectories, if_pos rfl]
        rfl
      · exact run_makeDirectories_of_ensured hne
          (run_ensureDirectory_root hempty hne h.null h.short)
    · have hopen : d.Open (trail (d.origin path) []) := fun _ hq => absurd hq List.not_mem_nil
      exact h.makeDirectories_of_open hdot hd hopen
    · by_cases hopen : d.Open (trail (d.origin path) cs)
      · exact h.makeDirectories_of_open hcs hd hopen
      · exact hclosed cs last hcs hlast hopen

end ApiTypings.Disk
