import ApiTypings.Proofs.Disk.Directories
import ApiTypings.Proofs.Disk.Temporary
import ApiTypings.Proofs.Success

/-!
# What operations that succeed have done

On a well-formed disk an operation that makes or moves something only succeeds when its paths lead
through directories to names; it is then known which place has changed, and what was there before.
-/

namespace ApiTypings.Disk

variable {d d' : Disk} {p q : Place} {path last : String} {cs : List String}

/-- A computation in two steps ends where the second one does, which starts where the first one
ends. -/
theorem of_run_bind {α β : Type} {x : StateM Disk α} {f : α → StateM Disk β} {b : β}
    (h : (x >>= f).run d = (b, d')) :
    ∃ a d₁, x.run d = (a, d₁) ∧ (f a).run d₁ = (b, d') :=
  ⟨(x.run d).1, (x.run d).2, rfl, (run_bind_of_run rfl).symm.trans h⟩

/-! ## Walks -/

/-- Entering a component leads to a directory. -/
theorem of_enter (hd : d.WellFormed) (hp : d.at? p = some .directory)
    (h : d.enter p last = .ok q) : q = step p last ∧ d.at? q = some .directory := by
  rw [enter] at h
  rw [step]
  by_cases hdot : last = "."
  · rw [if_pos hdot] at h ⊢
    cases h
    exact ⟨rfl, hp⟩
  rw [if_neg hdot] at h ⊢
  by_cases hdots : last = ".."
  · rw [if_pos hdots] at h ⊢
    cases h
    exact ⟨rfl, hd.dropLast hp⟩
  rw [if_neg hdots] at h ⊢
  split at h
  · cases h
  split at h
  · cases h
  · cases h
  · next hat =>
    cases h
    exact ⟨rfl, hat⟩

/-- A walk goes where the components lead, through directories only. -/
theorem open_of_foldlM_enter (hd : d.WellFormed) (hp : d.at? p = some .directory)
    (h : cs.foldlM d.enter p = .ok q) : q = follow p cs ∧ d.Open (trail p cs) := by
  induction cs generalizing p with
  | nil =>
    cases h
    exact ⟨rfl, fun _ hq => absurd hq List.not_mem_nil⟩
  | cons c cs ih =>
    rw [List.foldlM_cons] at h
    cases henter : d.enter p c with
    | error fault =>
      rw [henter] at h
      cases h
    | ok next =>
      rw [henter] at h
      obtain ⟨rfl, hdir⟩ := of_enter hd hp henter
      obtain ⟨hq, hopen⟩ := ih hdir h
      exact ⟨hq, List.forall_mem_cons.mpr ⟨hdir, hopen⟩⟩

/-- A path that leads through directories to a name. -/
structure Named (d : Disk) (path : String) (cs : List String) (last : String) : Prop where
  isPath : IsPath path cs last
  isName : IsName last
  opened : d.Open (trail (d.origin path) cs)
  origin : d.at? (d.origin path) = some .directory

namespace Named

/-- A named path leads to its last component in the directory before it. -/
theorem leads_eq (h : d.Named path cs last) :
    d.leads path = follow (d.origin path) cs ++ [last] := by
  rw [h.isPath.leads_eq]
  exact step_of_name h.isName.ne_dot h.isName.ne_dots

/-- What stands before the last component of a named path is a directory. -/
theorem directory (h : d.Named path cs last) :
    d.at? (follow (d.origin path) cs) = some .directory :=
  h.opened.directory h.origin

end Named

private theorem short_of_resolve {t : Target} (h : d.resolve path = .ok t) :
    path.utf8ByteSize < maxPath := by
  rw [resolve] at h
  split at h
  · cases h
  split at h
  · cases h
  split at h
  · cases h
  · next hshort => exact Nat.not_le.mp hshort

/-- A target with a name is reached through directories. -/
theorem named_of_resolve {t : Target} (hd : d.WellFormed)
    (horigin : d.at? (d.origin path) = some .directory) (h : d.resolve path = .ok t)
    (hname : t.isName = true) (hplace : t.place = .ok q) :
    (∃ cs, d.Named path cs t.last) ∧ q = d.leads path := by
  obtain ⟨hnull, hwalk⟩ := of_resolve h
  obtain ⟨hstep, hshort⟩ := of_place hplace
  have hdots : t.last ≠ "." ∧ t.last ≠ ".." := by
    rw [Target.isName, Bool.and_eq_true, decide_eq_true_iff, decide_eq_true_iff] at hname
    exact hname
  rcases hwalk with ⟨-, rfl⟩ | ⟨cs, hcs, hwalk⟩
  · exact absurd rfl hdots.1
  have hpath : IsPath path cs t.last := ⟨hcs, hnull, short_of_resolve h, hshort hname⟩
  obtain ⟨hdirectory, hopen⟩ := open_of_foldlM_enter hd horigin hwalk
  refine ⟨⟨cs, hpath, hpath.isName hdots.1 hdots.2, hopen, horigin⟩, ?_⟩
  rw [hstep, hdirectory, hpath.leads_eq]

/-- A name in a base is resolved through the base, whatever else has changed. -/
theorem Base.of_resolve {base name : String} (hb : d.Base base p) (hname : IsName name)
    {now : Disk} {t : Target} (hnow : now.WellFormed)
    (h : now.resolve (Path.join base name) = .ok t) :
    now.Base base p ∧ t.directory = p ∧ t.last = name := by
  obtain ⟨-, ⟨hnil, -⟩ | ⟨cs, hcs, hwalk⟩⟩ := Disk.of_resolve h
  · rw [hb.components_join hname] at hnil
    simp at hnil
  rw [hb.components_join hname] at hcs
  obtain ⟨rfl, hlast⟩ := List.append_singleton_inj.mp hcs
  rw [hb.origin_join] at hwalk
  obtain ⟨hdirectory, hopen⟩ := open_of_foldlM_enter hnow rfl hwalk
  exact ⟨hb.of_open hopen, hdirectory.trans hb.leads, hlast.symm⟩

/-- What is found under a name in a base is there. -/
theorem Base.of_find {base name : String} (hb : d.Base base p) (hname : IsName name)
    {now : Disk} {node : DiskNode} (hnow : now.WellFormed)
    (h : now.find (Path.join base name) = .ok (q, node)) : q = p ++ [name] := by
  have hresolved : ∃ t, now.resolve (Path.join base name) = .ok t ∧ t.place = .ok q := by
    rw [find] at h
    obtain ⟨t, ht, h⟩ := exists_of_bind_ok h
    obtain ⟨place, hplace, h⟩ := exists_of_bind_ok h
    refine ⟨t, ht, ?_⟩
    split at h
    · cases h
    · split at h
      · cases h
      · cases h
        exact hplace
    · cases h
      exact hplace
  obtain ⟨t, ht, hplace⟩ := hresolved
  obtain ⟨-, hdirectory, hlast⟩ := hb.of_resolve hname hnow ht
  rw [(of_place hplace).1, hdirectory, hlast, step_of_name hname.ne_dot hname.ne_dots]

/-! ## Making directories -/

/-- A directory is made at a name where nothing was. -/
theorem of_makeDirectory (hd : d.WellFormed) (horigin : d.at? (d.origin path) = some .directory)
    (h : d.makeDirectory path = .ok d') : ∃ cs last, d.Named path cs last ∧
      d.at? (d.leads path) = none ∧ d' = d.put (d.leads path) .directory := by
  rw [makeDirectory] at h
  obtain ⟨t, hresolve, h⟩ := exists_of_bind_ok h
  obtain ⟨place, hplace, h⟩ := exists_of_bind_ok h
  split at h
  · cases h
  next hat =>
  cases h
  -- Dots lead to a directory, and there is none.
  have hdirectory : d.at? t.directory = some .directory := by
    obtain ⟨-, ⟨-, rfl⟩ | ⟨cs, -, hwalk⟩⟩ := of_resolve hresolve
    · rfl
    obtain ⟨hfollow, hopen⟩ := open_of_foldlM_enter hd horigin hwalk
    rw [hfollow]
    exact hopen.directory horigin
  have hname : t.isName = true := by
    rw [(of_place hplace).1] at hat
    rw [Target.isName, Bool.and_eq_true, decide_eq_true_iff, decide_eq_true_iff]
    constructor
    · intro hdot
      rw [hdot, step, if_pos rfl, hdirectory] at hat
      cases hat
    · intro hdots
      rw [hdots, step, if_neg (by decide), if_pos rfl, hd.dropLast hdirectory] at hat
      cases hat
  obtain ⟨⟨cs, hnamed⟩, rfl⟩ := named_of_resolve hd horigin hresolve hname hplace
  exact ⟨cs, _, hnamed, hat, rfl⟩

/-- Making a directory where nothing is grows the disk by it. -/
theorem grown_put (hd : d.WellFormed) (hp : d.at? p = some .directory) (hname : IsName last)
    (hat : d.at? (p ++ [last]) = none) :
    d.Grown (d.put (p ++ [last]) .directory) [p ++ [last]] where
  wellFormed := hd.put hp hname (.inl rfl)
  current := rfl
  at? := by
    intro q
    rw [at?_put (by simp)]
    by_cases hq : q = p ++ [last]
    · rw [if_pos hq, if_pos ⟨List.mem_singleton.mpr hq, hq ▸ hat⟩]
    · rw [if_neg hq, if_neg fun hmem => hq (List.mem_singleton.mp hmem.1)]

/-- A directory that is made in a base is a base. -/
theorem Base.made {base name : String} (hb : d.Base base p) (hd : d.WellFormed)
    (hname : IsName name) (hnothing : d.at? (p ++ [name]) = none) :
    (d.put (p ++ [name]) .directory).WellFormed ∧
      (d.put (p ++ [name]) .directory).Base (Path.join base name) (p ++ [name]) := by
  have hgrown := grown_put hd hb.directory hname hnothing
  have hb' := hb.of_open fun q hq => hgrown.at?_directory (hb.opened q hq)
  exact ⟨hgrown.wellFormed, hb'.join hname (at?_put_self (by simp) .directory)⟩

/-- Paths start in a directory when the current one is there. -/
theorem origin_directory (hcurrent : d.at? d.current = some .directory) (path : String) :
    d.at? (d.origin path) = some .directory := by
  rw [origin]
  split
  · rfl
  · exact hcurrent

/-- Whether a directory is there afterwards or not, at most one was made. -/
theorem grown_of_ensureDirectory {result : Except DiskFault Unit} (hd : d.WellFormed)
    (hcurrent : d.at? d.current = some .directory)
    (h : (fileSystem.ensureDirectory path).run d = (result, d')) : ∃ places, d.Grown d' places := by
  rw [run_ensureDirectory] at h
  cases hmake : d.makeDirectory path with
  | error fault =>
    rw [hmake] at h
    cases h
    exact ⟨[], .refl hd⟩
  | ok made =>
    rw [hmake] at h
    cases h
    obtain ⟨cs, last, hnamed, hat, rfl⟩ :=
      of_makeDirectory hd (origin_directory hcurrent path) hmake
    rw [hnamed.leads_eq] at hat ⊢
    exact ⟨_, grown_put hd hnamed.directory hnamed.isName hat⟩

/-- Making directories, all of them or only some, changes nothing else. -/
theorem grown_of_makeDirectories {result : Except DiskFault Unit} (hd : d.WellFormed)
    (hcurrent : d.at? d.current = some .directory)
    (h : (fileSystem.makeDirectories path).run d = (result, d')) : ∃ places, d.Grown d' places := by
  induction hn : path.length using Nat.strong_induction_on generalizing path d d' result with
  | _ n ih =>
  rw [FileSystem.makeDirectories] at h
  split at h
  · cases h
    exact ⟨[], .refl hd⟩
  obtain ⟨first, d₁, hfirst, h⟩ := of_run_bind h
  obtain ⟨ps, hgrown⟩ := grown_of_ensureDirectory hd hcurrent hfirst
  have hcurrent₁ : d₁.at? d₁.current = some .directory := by
    rw [hgrown.current, hgrown.at?_directory hcurrent]
  split at h
  · split at h
    · cases h
      exact ⟨ps, hgrown⟩
    split at h
    · next hshorter =>
      obtain ⟨above, d₂, habove, h⟩ := of_run_bind h
      obtain ⟨ps', hgrown'⟩ := ih _ (hn ▸ hshorter) hgrown.wellFormed hcurrent₁ habove rfl
      split at h
      · cases h
        exact ⟨_, hgrown.trans hgrown'⟩
      · have hcurrent₂ : d₂.at? d₂.current = some .directory := by
          rw [hgrown'.current, hgrown'.at?_directory hcurrent₁]
        obtain ⟨ps'', hgrown''⟩ := grown_of_ensureDirectory hgrown'.wellFormed hcurrent₂ h
        exact ⟨_, (hgrown.trans hgrown').trans hgrown''⟩
    · cases h
      exact ⟨ps, hgrown⟩
  · cases h
    exact ⟨ps, hgrown⟩

section Temporary

variable {directory stem : String}

/-- A directory is made whatever endings are in store. -/
theorem makeDirectory_withEndings (d : Disk) (endings : Nat → Ending) (path : String) :
    (d.withEndings endings).makeDirectory path =
      (d.makeDirectory path).map (·.withEndings endings) := by
  have hresolve : (d.withEndings endings).resolve path = d.resolve path := rfl
  simp only [makeDirectory, hresolve, at?_withEndings, bind, Except.bind]
  cases d.resolve path with
  | error fault => rfl
  | ok target =>
    dsimp only
    cases target.place with
    | error fault => rfl
    | ok place =>
      dsimp only
      cases d.at? place <;> rfl

/-- A temporary directory has a temporary name. -/
theorem exists_of_makeTemporary {tries : Nat}
    (h : d.makeTemporary directory stem tries = (.ok path, d')) :
    ∃ ending endings made,
      path = Path.join (d.absolute directory) (Path.temporaryName stem ending) ∧
      d.makeDirectory path = .ok made ∧ d' = made.withEndings endings := by
  induction tries generalizing d with
  | zero => cases h
  | succ tries ih =>
    cases hmake : d.makeDirectory
        (Path.join (d.absolute directory) (Path.temporaryName stem (d.endings 0))) with
    | ok made =>
      rw [makeTemporary_made hmake] at h
      cases h
      exact ⟨d.endings 0, _, made, rfl, hmake, rfl⟩
    | error fault =>
      by_cases htaken : fault = .alreadyExists
      · rw [makeTemporary_taken (htaken ▸ hmake)] at h
        obtain ⟨ending, endings, made, hpath, hmade, rfl⟩ := ih h
        rw [drawn, makeDirectory_withEndings] at hmade
        cases hmake' : d.makeDirectory path with
        | error fault =>
          rw [hmake'] at hmade
          cases hmade
        | ok made' =>
          rw [hmake'] at hmade
          cases hmade
          exact ⟨ending, endings, made', hpath, rfl, rfl⟩
      · rw [makeTemporary_failed hmake htaken] at h
        cases h

/-- A temporary directory is made under a name that nothing had, in the directory that the path
from the root leads to. -/
theorem of_makeTemporary (hd : d.WellFormed) (hstem : IsStem stem)
    (h : (fileSystem.makeTemporary directory stem).run d = (.ok path, d')) :
    ∃ ending endings, path = Path.join (d.absolute directory) (Path.temporaryName stem ending) ∧
      IsName (Path.temporaryName stem ending) ∧
      ∃ p, d.Base (d.absolute directory) p ∧ d.at? (p ++ [Path.temporaryName stem ending]) = none ∧
        d' = (d.put (p ++ [Path.temporaryName stem ending]) .directory).withEndings endings := by
  obtain ⟨ending, endings, made, rfl, hmake, rfl⟩ := exists_of_makeTemporary h
  refine ⟨ending, endings, rfl, ?_⟩
  have habsolute := isAbsolute_absolute d directory
  have horigin : d.origin (Path.join (d.absolute directory) (Path.temporaryName stem ending)) =
      [] := by
    rw [origin, if_pos (Path.isAbsolute_join habsolute _)]
  obtain ⟨cs, last, hnamed, hat, rfl⟩ := of_makeDirectory hd (by rw [horigin]; rfl) hmake
  have hslash : '/' ∉ (Path.temporaryName stem ending).toList :=
    Path.not_mem_temporaryName (by decide) hstem.slash
  have hrelative : Path.isAbsolute (Path.temporaryName stem ending) = false := by
    rw [← Bool.not_eq_true, Path.isAbsolute_iff]
    exact fun hhead => hslash (List.mem_of_head? hhead)
  have hcomponents := hnamed.isPath.components
  rw [Path.components_join hrelative (absolute_ne_empty d directory),
    Path.components_of_name (Path.temporaryName_ne_of_lt (by decide)) hslash] at hcomponents
  obtain ⟨rfl, rfl⟩ := List.append_singleton_inj.mp hcomponents
  refine ⟨hnamed.isName, follow [] (Path.components (d.absolute directory)), ?_, ?_⟩
  · have hsub := Path.subset_join hrelative (absolute_ne_empty d directory)
    exact ⟨habsolute, fun hnull => hnamed.isPath.null (hsub hnull), horigin ▸ hnamed.opened, rfl⟩
  · rw [hnamed.leads_eq, horigin] at hat ⊢
    exact ⟨hat, rfl⟩

/-- The temporary directory that was made is a base. -/
theorem base_of_makeTemporary (hd : d.WellFormed) (hstem : IsStem stem)
    (h : (fileSystem.makeTemporary directory stem).run d = (.ok path, d')) :
    d'.WellFormed ∧ d'.Base path (d'.leads path) := by
  obtain ⟨ending, endings, rfl, hname, p, hbase, hnothing, rfl⟩ := of_makeTemporary hd hstem h
  rw [hbase.leads_join hname]
  obtain ⟨hmade, hbase'⟩ := hbase.made hd hname hnothing
  exact ⟨hmade.withEndings endings, hbase'.withEndings endings⟩

end Temporary

/-! ## Moving -/

/-- Nothing is below a place whose entries are all elsewhere. -/
theorem at?_of_isEmptyAt {place : Place} (h : d.isEmptyAt place = true) (hq : q ≠ []) :
    d.at? (place ++ q) = none := by
  refine (at?_eq_none_iff (by simp [hq])).mpr fun e he heq => ?_
  have hentry := List.all_eq_true.mp h e he
  rw [Bool.or_eq_true, heq, List.isPrefixOf_iff_prefix.mpr (List.prefix_append ..),
    decide_eq_true_iff] at hentry
  simp [hq] at hentry

/-- What may be replaced has nothing below. -/
theorem at?_of_mayReplace {place : Place} {node : DiskNode} (hd : d.WellFormed)
    (h : d.mayReplace place node = .ok ()) (hq : q ≠ []) : d.at? (place ++ q) = none := by
  rw [mayReplace.eq_def] at h
  split at h
  · next hat => exact hd.nothing_below (by simp [hat]) hq
  · next hat => exact hd.nothing_below (by simp [hat]) hq
  · cases h
  · cases h
  · split at h
    · next hempty => exact at?_of_isEmptyAt hempty hq
    · cases h

variable {source target : String}

/-- What has been renamed had a name, and so has what it was renamed to. -/
theorem resolve_of_rename (h : d.rename source target = .ok d') :
    ∃ s t, d.resolve source = .ok s ∧ d.resolve target = .ok t ∧ s.isName = true ∧
      t.isName = true := by
  rw [rename] at h
  obtain ⟨s, hs, h⟩ := exists_of_bind_ok h
  obtain ⟨t, ht, h⟩ := exists_of_bind_ok h
  split at h
  · cases h
  next hnames =>
  rw [Bool.or_eq_true, not_or, Bool.not_eq_true', Bool.not_eq_true', Bool.not_eq_false,
    Bool.not_eq_false] at hnames
  exact ⟨s, t, hs, ht, hnames.1, hnames.2⟩

/-- What is renamed in a base is reached through the base still. -/
theorem Base.of_rename {base name : String} (hb : d.Base base p) (hname : IsName name)
    {now : Disk} (hnow : now.WellFormed) (h : now.rename (Path.join base name) target = .ok d') :
    now.Base base p := by
  obtain ⟨s, -, hs, -⟩ := resolve_of_rename h
  exact (hb.of_resolve hname hnow hs).1

/-- Where a path starts is on the way that leads from the root. -/
theorem Base.origin_directory {now : Disk} (hb : now.Base (d.absolute path) p) (hd : d.WellFormed)
    (horigin : d.at? (d.origin path) = some .directory) :
    now.at? (d.origin path) = some .directory := by
  obtain ⟨names, hcomponents, hnames, hstart⟩ := exists_components_absolute hd horigin
  have hopen := hb.opened
  rw [hcomponents, trail_append] at hopen
  have hfollow := follow_mem [] names
  rw [follow_names hnames, List.nil_append] at hfollow
  rw [hstart]
  rcases List.mem_cons.mp hfollow with rfl | hmem
  · rfl
  · exact hopen _ (List.mem_append_left _ hmem)

/-- What has been renamed was moved to a name with nothing below, unless it was there already. -/
theorem of_rename (hd : d.WellFormed) (hsource : d.at? (d.origin source) = some .directory)
    (htarget : d.at? (d.origin target) = some .directory) (h : d.rename source target = .ok d') :
    (∃ cs last, d.Named source cs last) ∧ (∃ cs last, d.Named target cs last) ∧
      d.at? (d.leads source) ≠ none ∧
      (d.leads source = d.leads target ∧ d' = d ∨
        ¬d.leads source <+: d.leads target ∧ (∀ q ≠ [], d.at? (d.leads target ++ q) = none) ∧
          d' = d.move (d.leads source) (d.leads target)) := by
  obtain ⟨s, t, hs, ht, hnames, hnamet⟩ := resolve_of_rename h
  rw [rename, hs, ht] at h
  change (if (!s.isName || !t.isName) = true then _ else _) = _ at h
  rw [hnames, hnamet, if_neg (by decide)] at h
  obtain ⟨old, hold, h⟩ := exists_of_bind_ok h
  obtain ⟨new, hnew, h⟩ := exists_of_bind_ok h
  obtain ⟨⟨cs, hsource⟩, rfl⟩ := named_of_resolve hd hsource hs hnames hold
  obtain ⟨⟨cs', htarget⟩, rfl⟩ := named_of_resolve hd htarget ht hnamet hnew
  refine ⟨⟨cs, _, hsource⟩, ⟨cs', _, htarget⟩, ?_⟩
  split at h
  · cases h
  next node hat =>
  refine ⟨by simp [hat], ?_⟩
  split at h
  · cases h
  split at h
  · next hsame =>
    cases h
    exact .inl ⟨hsame, rfl⟩
  split at h
  · cases h
  next hapart =>
  obtain ⟨_, hmay, h⟩ := exists_of_bind_ok h
  cases h
  exact .inr ⟨by rwa [← List.isPrefixOf_iff_prefix], fun q hq => at?_of_mayReplace hd hmay hq, rfl⟩

/-- Renaming keeps a disk well formed. -/
theorem wellFormed_of_rename (hd : d.WellFormed)
    (hsource : d.at? (d.origin source) = some .directory)
    (htarget : d.at? (d.origin target) = some .directory) (h : d.rename source target = .ok d') :
    d'.WellFormed ∧ d'.current = d.current := by
  obtain ⟨⟨cs, last, hnamed⟩, ⟨cs', last', hnamed'⟩, -, hmove⟩ := of_rename hd hsource htarget h
  rcases hmove with ⟨-, rfl⟩ | ⟨happart, hempty, rfl⟩
  · exact ⟨hd, rfl⟩
  · have hne : d.leads source ≠ [] := by simp [hnamed.leads_eq]
    rw [hnamed'.leads_eq] at happart hempty ⊢
    exact ⟨hd.move hne hnamed'.directory hnamed'.isName hempty happart, rfl⟩

/-- A directory that something was renamed to was there. -/
theorem isPresent_of_rename (hd : d.WellFormed)
    (hsource : d.at? (d.origin source) = some .directory)
    (htarget : d.at? (d.origin target) = some .directory) (h : d.rename source target = .ok d')
    (hat : d.at? (d.leads target) = some .directory) : d.isPresent target = true := by
  obtain ⟨-, ⟨cs, last, hnamed⟩, -⟩ := of_rename hd hsource htarget h
  rw [isPresent, find_directory hnamed.isPath hd hnamed.opened hat]
  rfl

end ApiTypings.Disk
