import ApiTypings.Proofs.Disk.Operations

/-!
# Directories reached from the root

A base is a path from the root that leads through directories only. Names join to it: a path of a
base and a name leads to that name in the directory, and a file name that does not lead upwards is
written somewhere below the directory or not at all. On a well-formed disk every open path stands
for a base.
-/

namespace ApiTypings.Disk

variable {d : Disk} {p q : Place} {base path name : String}

/-- A name is a relative path. -/
theorem IsName.isRelative (h : IsName name) : Path.isAbsolute name = false := by
  rw [← Bool.not_eq_true, Path.isAbsolute_iff]
  exact fun hhead => h.slash (List.mem_of_head? hhead)

/-- A name is its only component. -/
theorem IsName.components_eq (h : IsName name) : Path.components name = [name] :=
  Path.components_of_name h.ne_empty h.slash

/-- A path from the root that leads through directories only. -/
structure Base (d : Disk) (base : String) (p : Place) : Prop where
  absolute : Path.isAbsolute base = true
  null : '\x00' ∉ base.toList
  opened : d.Open (trail [] (Path.components base))
  leads : follow [] (Path.components base) = p

namespace Base

/-- A base is a directory. -/
theorem directory (h : d.Base base p) : d.at? p = some .directory := by
  rw [← h.leads]
  exact h.opened.directory rfl

/-- The path of a base is not empty. -/
theorem ne_empty (h : d.Base base p) : base ≠ "" := by
  rintro rfl
  exact absurd h.absolute (by decide)

/-- A name below a base is one more component. -/
theorem components_join (h : d.Base base p) (hname : IsName name) :
    Path.components (Path.join base name) = Path.components base ++ [name] := by
  rw [Path.components_join hname.isRelative h.ne_empty, hname.components_eq]

/-- Paths below a base start at the root of the disk. -/
theorem origin_join (h : d.Base base p) (d' : Disk) (path : String) :
    d'.origin (Path.join base path) = [] := by
  rw [origin, if_pos (Path.isAbsolute_join h.absolute path)]

private theorem null_join (h : d.Base base p) (hnull : '\x00' ∉ path.toList) :
    '\x00' ∉ (Path.join base path).toList := by
  intro hmem
  rcases Path.mem_join hmem with hmem | hmem | hmem
  · exact h.null hmem
  · exact absurd hmem (by decide)
  · exact hnull hmem

/-- A name below a base is a path that ends in it. -/
theorem isPath_join (h : d.Base base p) (hname : IsName name)
    (hsize : (Path.join base name).utf8ByteSize < maxPath) :
    IsPath (Path.join base name) (Path.components base) name :=
  ⟨h.components_join hname, h.null_join hname.null, hsize, hname.short⟩

/-- The way to a base is open. -/
theorem open_join (h : d.Base base p) (path : String) :
    d.Open (trail (d.origin (Path.join base path)) (Path.components base)) := by
  rw [h.origin_join]
  exact h.opened

/-- A name below a base leads to the name in the directory of the base. -/
theorem leads_join (h : d.Base base p) (hname : IsName name) (d' : Disk) :
    d'.leads (Path.join base name) = p ++ [name] := by
  rw [Disk.leads, h.origin_join, h.components_join hname, follow_append, h.leads]
  exact step_of_name hname.ne_dot hname.ne_dots

/-- A name below a base ends in no slash. -/
theorem getLast?_join (h : d.Base base p) (hname : IsName name) :
    (Path.join base name).toList.getLast? ≠ some '/' := by
  have hne : name.toList ≠ [] := fun hnil => hname.ne_empty (String.toList_eq_nil_iff.mp hnil)
  rw [Path.join_of_relative hname.isRelative h.ne_empty, String.toList_append,
    List.getLast?_append_of_ne_nil _ hne]
  exact fun hlast => hname.slash (List.mem_of_getLast? hlast)

/-- A directory under a base is a base. -/
theorem join (h : d.Base base p) (hname : IsName name)
    (hat : d.at? (p ++ [name]) = some .directory) :
    d.Base (Path.join base name) (p ++ [name]) where
  absolute := Path.isAbsolute_join h.absolute name
  null := h.null_join hname.null
  opened := by
    have hstep : step p name = p ++ [name] := step_of_name hname.ne_dot hname.ne_dots
    rw [h.components_join hname, trail_append, h.leads]
    intro q hq
    rcases List.mem_append.mp hq with hq | hq
    · exact h.opened q hq
    · rw [List.mem_singleton.mp hq, hstep, hat]
  leads := by
    have hleads := h.leads_join hname d
    rwa [Disk.leads, h.origin_join] at hleads

/-- A base stays one when what it leads through stays. -/
theorem of_open (h : d.Base base p) {d' : Disk}
    (hopen : d'.Open (trail [] (Path.components base))) : d'.Base base p :=
  ⟨h.absolute, h.null, hopen, h.leads⟩

end Base

/-- Places of a well-formed disk are made of names. -/
theorem WellFormed.isName_of_mem (hd : d.WellFormed) {node : DiskNode} (hp : d.at? p = some node) :
    ∀ name ∈ p, IsName name := by
  intro name hname
  obtain ⟨before, after, rfl⟩ := List.append_of_mem hname
  have hsplit : before ++ name :: after = before ++ [name] ++ after := by simp
  rw [hsplit] at hp
  by_cases hnil : after = []
  · rw [hnil, List.append_nil] at hp
    exact hd.name _ _ _ hp
  · exact hd.name _ _ _ (hd.directory_above hnil hp)

/-- Names lead from the root to the place they are. -/
theorem follow_names {names : List String} (h : ∀ name ∈ names, IsName name) (start : Place) :
    follow start names = start ++ names := by
  induction names generalizing start with
  | nil => exact (List.append_nil _).symm
  | cons name names ih =>
    rw [List.forall_mem_cons] at h
    have hstep : step start name = start ++ [name] := step_of_name h.1.ne_dot h.1.ne_dots
    change follow (step start name) names = _
    rw [ih h.2, hstep, List.append_assoc]
    rfl

private theorem prefix_of_mem_trail_names {names : List String} (h : ∀ name ∈ names, IsName name)
    {start q : Place} (hq : q ∈ trail start names) : q <+: start ++ names := by
  induction names generalizing start with
  | nil => exact absurd hq List.not_mem_nil
  | cons name names ih =>
    rw [List.forall_mem_cons] at h
    have hstep : step start name = start ++ [name] := step_of_name h.1.ne_dot h.1.ne_dots
    have hsplit : start ++ name :: names = start ++ [name] ++ names := by simp
    rw [hsplit]
    rcases List.mem_cons.mp hq with rfl | hq
    · rw [hstep]
      exact List.prefix_append ..
    · exact ih h.2 (hstep ▸ hq)

/-- The absolute form of a path is absolute. -/
theorem isAbsolute_absolute (d : Disk) (path : String) :
    Path.isAbsolute (d.absolute path) = true := by
  refine Path.isAbsolute_join ?_ path
  rw [Path.isAbsolute_iff, String.toList_append]
  rfl

/-- The absolute form of a path is not empty. -/
theorem absolute_ne_empty (d : Disk) (path : String) : d.absolute path ≠ "" := by
  intro hempty
  have habsolute := isAbsolute_absolute d path
  rw [hempty] at habsolute
  exact absurd habsolute (by decide)

section Absolute

variable (hd : d.WellFormed) (horigin : d.at? (d.origin path) = some .directory)

include hd horigin

/-- The path from the root that a path stands for leads to where it starts and goes on as it
does. -/
theorem exists_components_absolute : ∃ names, Path.components (d.absolute path) =
    names ++ Path.components path ∧ (∀ name ∈ names, IsName name) ∧ d.origin path = names := by
  cases hrelative : Path.isAbsolute path with
  | true =>
    refine ⟨[], ?_, fun _ hmem => absurd hmem List.not_mem_nil, by rw [origin, hrelative]; rfl⟩
    rw [absolute, Path.join, hrelative, Bool.true_or, if_pos rfl]
    rfl
  | false =>
    rw [origin, hrelative, if_neg Bool.false_ne_true] at horigin
    have hnames := hd.isName_of_mem horigin
    have hne : "/" ++ Text.join "/" d.current ≠ "" := by
      intro hempty
      have hlist := congrArg String.toList hempty
      rw [String.toList_append] at hlist
      cases hlist
    refine ⟨d.current, ?_, hnames, by rw [origin, hrelative]; rfl⟩
    rw [absolute, Path.components_join hrelative hne, Path.components_slash_join]
    exact fun name hname => ⟨(hnames name hname).ne_empty, (hnames name hname).slash⟩

/-- The absolute form of a path leads where the path leads. -/
theorem follow_absolute : follow [] (Path.components (d.absolute path)) = d.leads path := by
  obtain ⟨names, hcomponents, hnames, hstart⟩ := exists_components_absolute hd horigin
  rw [hcomponents, follow_append, follow_names hnames, List.nil_append, leads, hstart]

/-- On the way from the root come the places above the one where the path starts. -/
theorem of_mem_trail_absolute (hq : q ∈ trail [] (Path.components (d.absolute path))) :
    q <+: d.origin path ∨ q ∈ trail (d.origin path) (Path.components path) := by
  obtain ⟨names, hcomponents, hnames, hstart⟩ := exists_components_absolute hd horigin
  rw [hcomponents, trail_append, follow_names hnames, List.nil_append] at hq
  rw [hstart]
  exact (List.mem_append.mp hq).imp_left (prefix_of_mem_trail_names hnames)

private theorem null_absolute (hnull : '\x00' ∉ path.toList) :
    '\x00' ∉ (d.absolute path).toList := by
  intro hmem
  rw [absolute] at hmem
  cases hrelative : Path.isAbsolute path with
  | true =>
    rw [Path.join, hrelative, Bool.true_or, if_pos rfl] at hmem
    exact hnull hmem
  | false =>
    rw [origin, hrelative, if_neg Bool.false_ne_true] at horigin
    have hnames := hd.isName_of_mem horigin
    have hcurrent : '\x00' ∉ (Text.join "/" d.current).toList :=
      Text.not_mem_join (by decide) fun name hname => (hnames name hname).null
    rcases Path.mem_join hmem with hmem | hmem | hmem
    · rw [String.toList_append, List.mem_append] at hmem
      exact hmem.elim (by decide) hcurrent
    · exact absurd hmem (by decide)
    · exact hnull hmem

/-- The path from the root that an open path stands for leads to the same place. -/
theorem base_absolute (hnull : '\x00' ∉ path.toList)
    (hopen : d.Open (trail (d.origin path) (Path.components path))) :
    d.Base (d.absolute path) (d.leads path) where
  absolute := isAbsolute_absolute d path
  null := null_absolute hd horigin hnull
  opened := by
    intro q hq
    rcases of_mem_trail_absolute hd horigin hq with ⟨rest, hrest⟩ | hq
    · by_cases hnil : rest = []
      · rw [hnil, List.append_nil] at hrest
        rw [hrest, horigin]
      · exact hd.directory_above hnil (hrest ▸ horigin)
    · exact hopen q hq
  leads := follow_absolute hd horigin

end Absolute

/-! ## Files below a base -/

/-- A file name that is not taken from the root and never leads up. -/
structure StaysInside (name : String) : Prop where
  relative : Path.isAbsolute name = false
  down : ".." ∉ Path.components name

/-- A name stays inside the directory it is joined to. -/
theorem IsName.staysInside (h : IsName name) : StaysInside name where
  relative := h.isRelative
  down := by
    rw [h.components_eq, List.mem_singleton]
    exact h.ne_dots.symm

/-- A name that stays inside is written below the base, in a directory that is there. -/
theorem Base.of_writeFile (hb : d.Base base p) (hd : d.WellFormed) (hname : StaysInside name)
    {content : ByteArray} {d' : Disk} (h : d.writeFile (Path.join base name) content = .ok d') :
    ∃ q n, d' = d.put (p ++ q ++ [n]) (.file content) ∧ d.at? (p ++ q) = some .directory ∧
      IsName n ∧ d.at? (p ++ q ++ [n]) ≠ some .directory := by
  have hcomponents := Path.components_join hname.relative hb.ne_empty
  obtain ⟨t, place, hresolve, hplace, hisName, hfile, rfl⟩ := Disk.of_writeFile h
  obtain ⟨hnull, hwalk⟩ := of_resolve hresolve
  obtain ⟨hstep, hshort⟩ := of_place hplace
  rcases hwalk with ⟨_, rfl⟩ | ⟨cs, hcs, hwalk⟩
  · cases hisName
  rw [hb.origin_join] at hwalk
  rw [hcomponents] at hcs
  rcases List.eq_nil_or_concat (Path.components name) with hnil | ⟨init, last, hlast⟩
  · -- Without a component the name leads to the base itself, which is a directory.
    rw [hnil, List.append_nil] at hcs
    have hopen : d.Open (trail [] cs) := by
      intro q hq
      refine hb.opened q ?_
      rw [hcs, trail_append]
      exact List.mem_append_left _ hq
    rw [foldlM_enter hd hopen] at hwalk
    have hbase : place = p := by
      rw [hstep, ← hb.leads, hcs, follow_append, ← Except.ok.inj hwalk]
      rfl
    rw [hbase, hb.directory] at hfile
    exact absurd rfl hfile
  · rw [List.concat_eq_append] at hlast
    rw [hlast, ← List.append_assoc] at hcs
    obtain ⟨rfl, rfl⟩ := List.append_singleton_inj.mp hcs
    rw [List.foldlM_append, foldlM_enter hd hb.opened, hb.leads] at hwalk
    have hdown : ".." ∉ init := fun hmem => hname.down (hlast ▸ List.mem_append_left _ hmem)
    obtain ⟨⟨q, hq⟩, hdir⟩ := of_foldlM_enter hb.directory hdown hwalk
    have hmem : t.last ∈ Path.components (Path.join base name) := by
      rw [hcomponents, hlast]
      simp
    obtain ⟨hempty, hslash, hsub⟩ := Path.of_mem_components hmem
    have hdots : t.last ≠ "." ∧ t.last ≠ ".." := by
      rw [Target.isName, Bool.and_eq_true, decide_eq_true_iff, decide_eq_true_iff] at hisName
      exact hisName
    have hplaced : place = p ++ q ++ [t.last] := by
      rw [hstep, step_of_name hdots.1 hdots.2, hq]
    rw [hplaced] at hfile ⊢
    rw [← hq] at hdir
    exact ⟨q, t.last, rfl, hdir, ⟨hempty, hslash, fun hmem => hnull (hsub hmem), hdots.1, hdots.2,
      hshort hisName⟩, hfile⟩

end ApiTypings.Disk
