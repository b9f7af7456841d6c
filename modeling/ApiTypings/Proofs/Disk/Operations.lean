import ApiTypings.Proofs.Disk.Walk

/-!
# Operations along open paths

When there is a directory at each place that a path leads through, an operation does what its name
says at the place the path leads to: it finds what is there, makes a directory, writes a file, or
moves what is there.
-/

namespace ApiTypings.Disk

variable {d : Disk} {p q : Place} {path name last : String} {cs : List String}

/-- The directory that a path starts from. -/
def origin (d : Disk) (path : String) : Place := if Path.isAbsolute path then [] else d.current

/-- The place that a path leads to. -/
def leads (d : Disk) (path : String) : Place := follow (d.origin path) (Path.components path)

/-- The directory of a path is where the components before the last one lead. -/
theorem leads_directory (h : Path.components path = cs ++ [last]) (hlast : last ≠ ".") :
    d.leads (Path.directory path) = follow (d.origin path) cs := by
  have hdirectory := Path.isDirectory_directory h hlast
  obtain ⟨core, dots, dots', hcs, hcomponents, hdots⟩ := hdirectory.components
  rw [List.forall_mem_append] at hdots
  rw [leads, hcomponents, hcs, follow_append, follow_append, follow_dots hdots.1,
    follow_dots hdots.2, origin, hdirectory.isAbsolute_eq, origin]

/-- A path that is neither malformed nor too long, with its last component apart. -/
structure IsPath (path : String) (cs : List String) (last : String) : Prop where
  components : Path.components path = cs ++ [last]
  null : '\x00' ∉ path.toList
  short : path.utf8ByteSize < maxPath
  lastShort : last.utf8ByteSize ≤ maxName

namespace IsPath

variable (h : IsPath path cs last)

include h

/-- A path with components is not empty. -/
theorem ne_empty : path ≠ "" := by
  rintro rfl
  exact absurd h.components (by simp [show Path.components "" = [] from rfl])

/-- A path leads one step from where its components before the last lead. -/
theorem leads_eq (d : Disk) : d.leads path = step (follow (d.origin path) cs) last := by
  rw [leads, h.components, follow_append]
  rfl

/-- The last component is a name, unless it is one or two dots. -/
theorem isName (hdot : last ≠ ".") (hdots : last ≠ "..") : IsName last := by
  obtain ⟨hempty, hslash, hsub⟩ := Path.of_mem_components
    (h.components ▸ List.mem_append_right cs (List.mem_singleton_self last))
  exact ⟨hempty, hslash, fun hnull => h.null (hsub hnull), hdot, hdots, h.lastShort⟩

/-- A path is resolved by entering the components before its last. -/
theorem resolve_start : d.resolve path =
    (cs.foldlM d.enter (d.origin path)).map
      fun directory => ⟨directory, last, path.toList.getLast? = some '/'⟩ := by
  have hnull : path.toList.contains '\x00' = false := by simpa using h.null
  rw [resolve, hnull, if_neg Bool.false_ne_true, if_neg h.ne_empty,
    if_neg (Nat.not_le.mpr h.short)]
  simp only [h.components, List.getLast?_concat, List.dropLast_concat]
  rw [origin]
  cases cs.foldlM d.enter (if Path.isAbsolute path then [] else d.current) <;> rfl

/-- A path is resolved when all places before its last component are directories. -/
theorem resolve_eq (hd : d.WellFormed) (hopen : d.Open (trail (d.origin path) cs)) :
    d.resolve path =
      .ok ⟨follow (d.origin path) cs, last, path.toList.getLast? = some '/'⟩ := by
  rw [h.resolve_start, foldlM_enter hd hopen]
  rfl

end IsPath

/-- A last component that is not too long is a step from its directory. -/
theorem place_eq (hlast : last.utf8ByteSize ≤ maxName) (slash : Bool) :
    Target.place ⟨p, last, slash⟩ = .ok (step p last) := by
  rw [Target.place, step]
  by_cases hdot : last = "."
  · rw [if_pos hdot, if_pos hdot]
  · by_cases hdots : last = ".."
    · rw [if_neg hdot, if_pos hdots, if_neg hdot, if_pos hdots]
    · rw [if_neg hdot, if_neg hdots, if_neg (Nat.not_lt.mpr hlast), if_neg hdot, if_neg hdots]

private theorem IsName.isName_target (h : IsName last) (slash : Bool) :
    Target.isName ⟨p, last, slash⟩ = true := by
  rw [Target.isName, Bool.and_eq_true, decide_eq_true_iff, decide_eq_true_iff]
  exact ⟨h.ne_dot, h.ne_dots⟩

section Open

variable (h : IsPath path cs last) (hd : d.WellFormed) (hopen : d.Open (trail (d.origin path) cs))

include h hd hopen

/-- A directory is found where the path leads. -/
theorem find_directory (hat : d.at? (d.leads path) = some .directory) :
    d.find path = .ok (d.leads path, .directory) := by
  rw [h.leads_eq] at hat ⊢
  simp only [find, h.resolve_eq hd hopen, bind, Except.bind, place_eq h.lastShort, hat]

/-- Nothing is found where nothing is. -/
theorem find_nothing (hat : d.at? (d.leads path) = none) : d.find path = .error .notFound := by
  rw [h.leads_eq] at hat
  simp only [find, h.resolve_eq hd hopen, bind, Except.bind, place_eq h.lastShort, hat]

/-- A directory is made where nothing is. -/
theorem makeDirectory_nothing (hat : d.at? (d.leads path) = none) :
    d.makeDirectory path = .ok (d.put (d.leads path) .directory) := by
  rw [h.leads_eq] at hat ⊢
  simp only [makeDirectory, h.resolve_eq hd hopen, bind, Except.bind, place_eq h.lastShort, hat]

/-- No directory is made where something is. -/
theorem makeDirectory_something {node : DiskNode} (hat : d.at? (d.leads path) = some node) :
    d.makeDirectory path = .error .alreadyExists := by
  rw [h.leads_eq] at hat
  simp only [makeDirectory, h.resolve_eq hd hopen, bind, Except.bind, place_eq h.lastShort, hat]

/-- A place with nothing is reached through a name in a directory. -/
theorem leads_of_nothing (horigin : d.at? (d.origin path) = some .directory)
    (hat : d.at? (d.leads path) = none) :
    d.at? (follow (d.origin path) cs) = some .directory ∧ IsName last ∧
      d.leads path = follow (d.origin path) cs ++ [last] := by
  have hparent := hopen.directory horigin
  rw [h.leads_eq] at hat ⊢
  have hdot : last ≠ "." := by
    rintro rfl
    rw [step, if_pos rfl, hparent] at hat
    cases hat
  have hdots : last ≠ ".." := by
    rintro rfl
    rw [step, if_neg (by decide), if_pos rfl, hd.dropLast hparent] at hat
    cases hat
  exact ⟨hparent, h.isName hdot hdots, step_of_name hdot hdots⟩

/-- A file is written at a name where there is no directory. -/
theorem writeFile_eq (hslash : path.toList.getLast? ≠ some '/') (hname : IsName last)
    (hat : d.at? (d.leads path) ≠ some .directory) (content : ByteArray) :
    d.writeFile path content = .ok (d.put (d.leads path) (.file content)) := by
  rw [h.leads_eq] at hat ⊢
  simp only [writeFile, h.resolve_eq hd hopen, bind, Except.bind, hname.isName_target, hslash,
    place_eq h.lastShort, decide_false, Bool.not_true, Bool.or_false, Bool.false_eq_true, if_false]

/-- What is in a directory is removed with it. -/
theorem removeTree_eq (hat : d.at? (d.leads path) = some .directory) :
    d.removeTree path = d.cut (d.leads path) := by
  rw [removeTree, find_directory h hd hopen hat]

/-- A directory is moved to a name where there is nothing. -/
theorem rename_eq {target name : String} {cs' : List String} (h' : IsPath target cs' name)
    (hopen' : d.Open (trail (d.origin target) cs')) (hlast : IsName last) (hname : IsName name)
    (hat : d.at? (d.leads path) = some .directory) (hnone : d.at? (d.leads target) = none)
    (happart : ¬d.leads path <+: d.leads target) :
    d.rename path target = .ok (d.move (d.leads path) (d.leads target)) := by
  have hne : d.leads path ≠ d.leads target := by
    intro heq
    rw [heq, hnone] at hat
    cases hat
  have hbool : (d.leads path).isPrefixOf (d.leads target) = false := by
    rwa [← Bool.not_eq_true, List.isPrefixOf_iff_prefix]
  rw [h.leads_eq] at hat hne hbool ⊢
  rw [h'.leads_eq] at hnone hne hbool ⊢
  simp only [rename, h.resolve_eq hd hopen, h'.resolve_eq hd hopen', bind, Except.bind,
    hlast.isName_target, hname.isName_target, place_eq h.lastShort, place_eq h'.lastShort, hat,
    Bool.not_true, Bool.or_false, Bool.false_eq_true, if_false, DiskNode.isDirectory,
    Bool.false_and, hne, hbool, mayReplace, hnone]

end Open

/-! ## Paths that stay inside a directory -/

/-- A walk that never goes up ends in a directory below the one it starts from. -/
theorem of_foldlM_enter (hp : d.at? p = some .directory) (hdown : ".." ∉ cs)
    (h : cs.foldlM d.enter p = .ok q) : p <+: q ∧ d.at? q = some .directory := by
  induction cs generalizing p with
  | nil =>
    cases h
    exact ⟨List.prefix_refl _, hp⟩
  | cons c cs ih =>
    rw [List.mem_cons, not_or] at hdown
    rw [List.foldlM_cons, enter] at h
    by_cases hdot : c = "."
    · rw [if_pos hdot] at h
      exact ih hp hdown.2 h
    · rw [if_neg hdot, if_neg (Ne.symm hdown.1)] at h
      by_cases hlong : c.utf8ByteSize > maxName
      · rw [if_pos hlong] at h
        cases h
      · rw [if_neg hlong] at h
        cases hat : d.at? (p ++ [c]) with
        | none =>
          rw [hat] at h
          cases h
        | some node =>
          rw [hat] at h
          cases node with
          | file content => cases h
          | directory =>
            obtain ⟨hpre, hdir⟩ := ih hat hdown.2 h
            exact ⟨(List.prefix_append ..).trans hpre, hdir⟩

/-- A resolved path is well-formed, and it was walked up to its last component. -/
theorem of_resolve {t : Target} (h : d.resolve path = .ok t) : '\x00' ∉ path.toList ∧
    (Path.components path = [] ∧ t = ⟨[], ".", true⟩ ∨
      ∃ cs, Path.components path = cs ++ [t.last] ∧
        cs.foldlM d.enter (d.origin path) = .ok t.directory) := by
  rw [resolve] at h
  split at h
  · cases h
  next hnull =>
  split at h
  · cases h
  split at h
  · cases h
  refine ⟨by simpa using hnull, ?_⟩
  rcases List.eq_nil_or_concat (Path.components path) with hnil | ⟨cs, last, hcs⟩
  · simp only [hnil, List.getLast?_nil] at h
    cases h
    exact .inl ⟨hnil, rfl⟩
  · rw [List.concat_eq_append] at hcs
    simp only [hcs, List.getLast?_concat, List.dropLast_concat] at h
    change (cs.foldlM d.enter (d.origin path) >>= _) = _ at h
    cases hwalk : cs.foldlM d.enter (d.origin path) with
    | error fault =>
      rw [hwalk] at h
      cases h
    | ok directory =>
      rw [hwalk] at h
      cases h
      exact .inr ⟨cs, hcs, hwalk⟩

/-- A place is a step from its directory, by a name that is not too long. -/
theorem of_place {t : Target} (h : t.place = .ok q) : q = step t.directory t.last ∧
    (t.isName = true → t.last.utf8ByteSize ≤ maxName) := by
  rw [Target.place] at h
  rw [step, Target.isName]
  split at h
  · next hdot =>
    cases h
    rw [if_pos hdot]
    exact ⟨rfl, fun hname => by simp [hdot] at hname⟩
  · next hdot =>
    split at h
    · next hdots =>
      cases h
      rw [if_neg hdot, if_pos hdots]
      exact ⟨rfl, fun hname => by simp [hdots] at hname⟩
    · next hdots =>
      split at h
      · cases h
      · next hlong =>
        cases h
        rw [if_neg hdot, if_neg hdots]
        exact ⟨rfl, fun _ => Nat.not_lt.mp hlong⟩

/-- A file that was written is at a name where there was no directory. -/
theorem of_writeFile {content : ByteArray} {d' : Disk} (h : d.writeFile path content = .ok d') :
    ∃ t place, d.resolve path = .ok t ∧ t.place = .ok place ∧ t.isName = true ∧
      d.at? place ≠ some .directory ∧ d' = d.put place (.file content) := by
  simp only [writeFile, bind, Except.bind] at h
  cases hresolve : d.resolve path with
  | error fault =>
    rw [hresolve] at h
    cases h
  | ok t =>
    simp only [hresolve] at h
    split at h
    · cases h
    next hlast =>
    rw [Bool.or_eq_true, not_or, Bool.not_eq_true', Bool.not_eq_false] at hlast
    cases hplace : t.place with
    | error fault =>
      simp only [hplace] at h
      cases h
    | ok place =>
      simp only [hplace] at h
      split at h
      · cases h
      · next hat =>
        cases h
        exact ⟨t, place, rfl, hplace, hlast.2, hat, rfl⟩

/-- What runs after a step starts where the step ended. -/
theorem run_bind_of_run {α β : Type} {x : StateM Disk α} {f : α → StateM Disk β} {a : α}
    {d d' : Disk} (h : x.run d = (a, d')) : (x >>= f).run d = (f a).run d' := by
  rw [StateT.run_bind, h]
  rfl

end ApiTypings.Disk
