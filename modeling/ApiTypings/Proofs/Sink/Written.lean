import ApiTypings.Proofs.Disk.Inversion
import ApiTypings.Proofs.Sink.Refinement

/-!
# What a batch that was written leaves

Whatever a root is, when writing a batch of plain names to it succeeds, the root is a directory that
holds what a sink in memory holds after the batch. This looks back from the success at each step:
the way to the root cannot lead through anything that the swap moves.
-/

namespace ApiTypings

namespace Disk

variable {d d' e : Disk} {base root staging parking name : String} {p q : Place}

/-- A staged directory and an empty one for parking stand beside each other. -/
structure Poised (d : Disk) (base : String) (p : Place) (staging parking : String) : Prop where
  wellFormed : d.WellFormed
  current : d.at? d.current = some .directory
  base : d.Base base p
  stagingName : IsName staging
  parkingName : IsName parking
  distinct : staging ≠ parking
  staged : d.at? (p ++ [staging]) = some .directory
  parked : d.at? (p ++ [parking]) = some .directory

/-- So they do when the directory for parking is made where nothing was. -/
theorem poised_put (hd : d.WellFormed) (hcurrent : d.at? d.current = some .directory)
    (hbase : d.Base base p) (hstaging : IsName staging) (hparking : IsName parking)
    (hdistinct : staging ≠ parking) (hstaged : d.at? (p ++ [staging]) = some .directory)
    (hnothing : d.at? (p ++ [parking]) = none) (endings : Nat → Ending) :
    ((d.put (p ++ [parking]) .directory).withEndings endings).Poised base p staging parking := by
  have hgrown := grown_put hd hbase.directory hparking hnothing
  exact
    { wellFormed := hgrown.wellFormed.withEndings endings
      current := hgrown.at?_directory hcurrent
      base := hbase.of_open fun q hq => hgrown.at?_directory (hbase.opened q hq)
      stagingName := hstaging
      parkingName := hparking
      distinct := hdistinct
      staged := hgrown.at?_directory hstaged
      parked := at?_put_self (by simp) .directory }

/-- A path that has been renamed to ends in a name in its directory. -/
theorem exists_leads_of_rename {source : String} (hd : d.WellFormed)
    (hsource : d.at? (d.origin source) = some .directory)
    (htarget : d.at? (d.origin root) = some .directory) (h : d.rename source root = .ok d') :
    ∃ last, d.leads root = d.leads (Path.directory root) ++ [last] := by
  obtain ⟨-, ⟨cs, last, hnamed⟩, -⟩ := of_rename hd hsource htarget h
  rw [leads_directory hnamed.isPath.components hnamed.isName.ne_dot]
  exact ⟨last, hnamed.leads_eq⟩

namespace Poised

variable (h : d.Poised base p staging parking)

include h

private theorem base_parking : d.Base (Path.join base parking) (p ++ [parking]) :=
  h.base.join h.parkingName h.parked

private theorem leads_output : d.leads (Path.join (Path.join base parking) "output") =
    p ++ [parking] ++ ["output"] :=
  h.base_parking.leads_join isName_output d

/-- What moving the root aside does. -/
theorem of_aside (haside : d.rename root (Path.join (Path.join base parking) "output") = .ok e) :
    d.leads root ≠ [] ∧
      (d.leads root = p ++ [parking] ++ ["output"] ∧ e = d ∨
        ¬d.leads root <+: p ++ [parking] ++ ["output"] ∧
          (∀ q ≠ [], d.at? (p ++ [parking] ++ ["output"] ++ q) = none) ∧
          e = d.move (d.leads root) (p ++ [parking] ++ ["output"])) := by
  obtain ⟨⟨cs, last, hroot⟩, -, -, hmove⟩ := of_rename h.wellFormed
    (origin_directory h.current root) (by rw [h.base_parking.origin_join]; rfl) haside
  rw [h.leads_output] at hmove
  exact ⟨by simp [hroot.leads_eq], hmove⟩

/-- Moving the old root aside keeps the disk well formed. -/
theorem wellFormed_aside
    (haside : d.rename root (Path.join (Path.join base parking) "output") = .ok e) :
    e.WellFormed ∧ e.current = d.current :=
  wellFormed_of_rename h.wellFormed (origin_directory h.current root)
    (by rw [h.base_parking.origin_join]; rfl) haside

/-- If the staged directory is still there when the root has been moved aside, it holds what it
held. -/
theorem kept_aside (hoff : ¬p ++ [staging] <+: d.leads root)
    (hoff' : ¬p ++ [parking] <+: d.leads root)
    (haside : d.rename root (Path.join (Path.join base parking) "output") = .ok e)
    (hstaged : e.at? (p ++ [staging]) ≠ none) (q : Place) :
    e.at? (p ++ [staging] ++ q) = d.at? (p ++ [staging] ++ q) := by
  obtain ⟨hne, ⟨hsame, -⟩ | ⟨hapart, hempty, rfl⟩⟩ := h.of_aside haside
  · exact absurd (hsame ▸ List.prefix_append ..) hoff'
  have hat := at?_move hne (by simp) hempty hapart
  have hother : ∀ q, ¬p ++ [parking] ++ ["output"] <+: p ++ [staging] ++ q := fun q hpre =>
    apart_names h.distinct.symm q ((List.prefix_append ..).trans hpre)
  have habove : ¬d.leads root <+: p ++ [staging] := by
    intro hpre
    have hself := hother []
    rw [List.append_nil] at hself
    rw [hat, if_neg hself, if_pos hpre] at hstaged
    exact hstaged rfl
  have hbelow : ¬d.leads root <+: p ++ [staging] ++ q := fun hpre =>
    (List.prefix_or_prefix_of_prefix hpre (List.prefix_append ..)).elim habove hoff
  rw [hat, if_neg (hother q), if_neg hbelow]

/-- The root that was moved aside is not the directory that it was moved into. -/
theorem ne_parking_of_aside
    (haside : d.rename root (Path.join (Path.join base parking) "output") = .ok e) :
    d.leads root ≠ p ++ [parking] := by
  intro heq
  obtain ⟨-, ⟨hsame, -⟩ | ⟨hapart, -⟩⟩ := h.of_aside haside
  · rw [heq] at hsame
    simp at hsame
  · exact hapart (heq ▸ List.prefix_append ..)

/-- If the staged directory is still there, it was not the root that was moved aside. -/
theorem ne_staging_of_aside
    (haside : d.rename root (Path.join (Path.join base parking) "output") = .ok e)
    (hstaged : e.at? (p ++ [staging]) ≠ none) : d.leads root ≠ p ++ [staging] := by
  intro heq
  obtain ⟨hne, ⟨hsame, -⟩ | ⟨hapart, hempty, rfl⟩⟩ := h.of_aside haside
  · rw [heq] at hsame
    simp at hsame
  · have hother : ¬p ++ [parking] ++ ["output"] <+: p ++ [staging] := by
      intro hpre
      have hparking := (List.prefix_append (p ++ [parking]) ["output"]).trans hpre
      rw [← List.append_nil (p ++ [staging])] at hparking
      exact apart_names h.distinct.symm [] hparking
    rw [at?_move hne (by simp) hempty hapart, if_neg hother, if_pos (heq ▸ List.prefix_refl _)]
      at hstaged
    exact hstaged rfl

end Poised

/-- Once the staged directory has been moved to the root, the root holds what was staged, and so it
does when what was parked is removed. -/
theorem installed (hd : e.WellFormed) (hbase : e.Base base p)
    (horigin : e.at? (e.origin root) = some .directory) (hstaging : IsName staging)
    (hparking : IsName parking) (hoff : ¬p ++ [staging] <+: e.leads root)
    (hoff' : ¬p ++ [parking] <+: e.leads root)
    (hinstall : e.rename (Path.join base staging) root = .ok d') :
    (d'.removeTree (Path.join base parking)).current = e.current ∧
      ∀ q, (d'.removeTree (Path.join base parking)).at? (e.leads root ++ q) =
        e.at? (p ++ [staging] ++ q) := by
  obtain ⟨-, ⟨cs, last, hroot⟩, hthere, hmove⟩ := of_rename hd
    (by rw [hbase.origin_join]; rfl) horigin hinstall
  rw [hbase.leads_join hstaging] at hthere hmove
  obtain ⟨hsame, -⟩ | ⟨hapart, hempty, rfl⟩ := hmove
  · exact absurd (hsame ▸ List.prefix_refl _) hoff
  have hne : e.leads root ≠ [] := by simp [hroot.leads_eq]
  have hat := at?_move (by simp) hne hempty hapart
  have hwellFormed : (e.move (p ++ [staging]) (e.leads root)).WellFormed := by
    rw [hroot.leads_eq] at hempty hapart ⊢
    exact hd.move (by simp) hroot.directory hroot.isName hempty hapart
  have hinside : ∀ q, (e.move (p ++ [staging]) (e.leads root)).at? (e.leads root ++ q) =
      e.at? (p ++ [staging] ++ q) := by
    intro q
    rw [hat, if_pos (List.prefix_append ..), List.drop_left]
  rw [removeTree]
  split
  · next place node hfind =>
    refine ⟨rfl, fun q => ?_⟩
    obtain rfl := hbase.of_find hparking hwellFormed hfind
    rw [at?_cut (by simp), if_neg, hinside]
    intro hpre
    rcases List.prefix_or_prefix_of_prefix hpre (List.prefix_append ..) with h | h
    · exact hoff' h
    rcases List.prefix_concat_iff.mp h with heq | ⟨rest, rfl⟩
    · exact hoff' (heq ▸ List.prefix_refl _)
    · rw [List.append_assoc] at hthere
      exact hthere (hempty _ (by simp))
  · exact ⟨rfl, hinside⟩

private theorem of_run_attempt {change : Disk → Except DiskFault Disk}
    (h : (attempt change).run d = (.ok (), d')) : change d = .ok d' := by
  simp only [attempt, StateT.run] at h
  split at h
  · next hchange =>
    cases h
    exact hchange
  · cases h

end Disk

namespace DirectorySink

open Disk

variable {d d' : Disk} {base root staging parking staged parked parent : String} {p q : Place}
  {schedule : Schedule} {batch : List Artifact}

/-! ## The steps of a success -/

/-- A swap that succeeds moves the staged directory to the root, after moving the root aside if
something is there. -/
theorem of_swapIn (h : (swapIn fileSystem staged root parked).run d = (.ok (), d')) :
    ∃ e, (d.isPresent root = false ∧ e = d ∨ d.rename root parked = .ok e) ∧
      e.rename staged root = .ok d' := by
  rw [swapIn] at h
  obtain ⟨present, d₀, hpresent, h⟩ := of_run_bind h
  obtain ⟨rfl, rfl⟩ : d.isPresent root = present ∧ d = d₀ :=
    ⟨congrArg Prod.fst hpresent, congrArg Prod.snd hpresent⟩
  split at h
  · obtain ⟨aside, e, haside, h⟩ := of_run_bind h
    split at h
    · cases h
    obtain ⟨installed, d₂, hinstall, h⟩ := of_run_bind h
    split at h
    · cases h
      exact ⟨e, .inr (of_run_attempt haside), of_run_attempt hinstall⟩
    · obtain ⟨back, d₃, -, h⟩ := of_run_bind h
      cases h
  · next habsent =>
    obtain ⟨installed, d₂, hinstall, h⟩ := of_run_bind h
    cases installed with
    | error fault => cases h
    | ok =>
      cases h
      exact ⟨d, .inl ⟨Bool.not_eq_true _ ▸ habsent, rfl⟩, of_run_attempt hinstall⟩

/-- The disks between the steps of a batch that is written. -/
theorem of_writeAll (h : (writeAll fileSystem schedule root batch).run d = (.ok (), d')) :
    ∃ d₁ staging d₂ d₃ parking d₄ d₅,
      (fileSystem.makeDirectories (Path.directory root)).run d = (.ok (), d₁) ∧
      (fileSystem.makeTemporary (Path.directory root) stagingStem).run d₁ = (.ok staging, d₂) ∧
      (writeFiles fileSystem schedule staging batch).run d₂ = (.ok (), d₃) ∧
      (fileSystem.makeTemporary (Path.directory root) parkingStem).run d₃ = (.ok parking, d₄) ∧
      (swapIn fileSystem staging root (Path.join parking "output")).run d₄ = (.ok (), d₅) ∧
      d' = d₅.removeTree parking := by
  rw [writeAll] at h
  obtain ⟨made, d₁, hmake, h⟩ := of_run_bind h
  split at h
  · cases h
  obtain ⟨stage, d₂, hstage, h⟩ := of_run_bind h
  split at h
  · cases h
  obtain ⟨written, d₃, hwrite, h⟩ := of_run_bind h
  dsimp only at h
  split at h
  · cases h
  obtain ⟨result, d₆, hreplace, h⟩ := of_run_bind h
  split at h
  swap
  · cases h
  cases h
  rw [replace] at hreplace
  obtain ⟨park, d₄, hpark, hreplace⟩ := of_run_bind hreplace
  split at hreplace
  · cases hreplace
  obtain ⟨swapped, d₅, hswap, hreplace⟩ := of_run_bind hreplace
  obtain ⟨_, d₇, hremove, hreplace⟩ := of_run_bind hreplace
  cases hreplace
  cases hremove
  exact ⟨d₁, _, d₂, d₃, _, d₄, d₅, hmake, hstage, hwrite, hpark, hswap, rfl⟩

/-- A file name without slashes that is not one or two dots. -/
structure Bare (name : String) : Prop where
  ne_empty : name ≠ ""
  slash : '/' ∉ name.toList
  ne_dot : name ≠ "."
  ne_dots : name ≠ ".."

namespace Bare

variable {name : String} (h : Bare name)

include h

/-- A bare file name is its only component. -/
theorem components_eq : Path.components name = [name] :=
  Path.components_of_name h.ne_empty h.slash

/-- A bare file name stays inside. -/
theorem staysInside : Disk.StaysInside name where
  relative := by
    rw [← Bool.not_eq_true, Path.isAbsolute_iff]
    exact fun hhead => h.slash (List.mem_of_head? hhead)
  down := by
    rw [h.components_eq, List.mem_singleton]
    exact h.ne_dots.symm

/-- A bare name that was written to is a name, and there was room for the path. -/
theorem of_writeFile {content : ByteArray} (hb : d.Base base p) (hd : d.WellFormed)
    (hwrite : d.writeFile (Path.join base name) content = .ok d') :
    IsName name ∧ (Path.join base name).utf8ByteSize < maxPath := by
  obtain ⟨t, place, hresolve, hplace, hname, -⟩ := Disk.of_writeFile hwrite
  obtain ⟨⟨cs, hnamed⟩, -⟩ :=
    named_of_resolve hd (by rw [hb.origin_join]; rfl) hresolve hname hplace
  have hcomponents := hnamed.isPath.components
  rw [Path.components_join h.staysInside.relative hb.ne_empty, h.components_eq] at hcomponents
  obtain ⟨-, hlast⟩ := List.append_singleton_inj.mp hcomponents
  exact ⟨hlast ▸ hnamed.isName, hnamed.isPath.short⟩

/-- A bare name that was written to has a file of its own in the base. -/
theorem put_of_writeFile {content : ByteArray} (hb : d.Base base p) (hd : d.WellFormed)
    (hwrite : d.writeFile (Path.join base name) content = .ok d') :
    d' = d.put (p ++ [name]) (.file content) ∧ d.Staged d' p := by
  obtain ⟨hname, -⟩ := h.of_writeFile hb hd hwrite
  obtain ⟨t, place, hresolve, hplace, -, hat, rfl⟩ := Disk.of_writeFile hwrite
  obtain ⟨-, hdirectory, hlast⟩ := hb.of_resolve hname hd hresolve
  obtain rfl : place = p ++ [name] := by
    rw [(of_place hplace).1, hdirectory, hlast, step_of_name hname.ne_dot hname.ne_dots]
  exact ⟨rfl, .put_file hd hb.directory hname hat content⟩

end Bare

/-- Whether a batch of bare names is written as a whole or not, only the places of these names in
the base may change. -/
theorem at?_of_writeFiles (hb : d.Base base p) (hd : d.WellFormed)
    (hbare : ∀ a ∈ batch, Bare a.filename) (hq : ∀ a ∈ batch, q ≠ p ++ [a.filename])
    (schedule : Schedule) :
    ((writeFiles fileSystem schedule base batch).run d).2.at? q = d.at? q := by
  refine (writeFiles_keeps (I := fun now => d.Staged now p ∧ now.at? q = d.at? q)
    (fun a ha now later hnow hwrite => ?_) ⟨.refl hd p, rfl⟩).2
  obtain ⟨hstaged, hsame⟩ := hnow
  obtain ⟨rfl, hput⟩ := (hbare a ha).put_of_writeFile (hstaged.base hb) hstaged.wellFormed hwrite
  exact ⟨hstaged.trans hput, by rw [at?_put (by simp), if_neg (hq a ha), hsame]⟩

/-- When bare names have been written to one after the other, they are names, and there was room for
their paths. -/
theorem of_foldlM_writeIn (hb : d.Base base p) (hd : d.WellFormed)
    (hbare : ∀ a ∈ batch, Bare a.filename) (h : batch.foldlM (writeIn base) d = .ok d') :
    ∀ a ∈ batch, IsName a.filename ∧ (Path.join base a.filename).utf8ByteSize < maxPath := by
  induction batch generalizing d with
  | nil => exact fun a ha => absurd ha List.not_mem_nil
  | cons a batch ih =>
    rw [List.forall_mem_cons] at hbare
    rw [List.foldlM_cons] at h
    obtain ⟨d₁, hwrite, h⟩ := exists_of_bind_ok h
    obtain ⟨-, hput⟩ := hbare.1.put_of_writeFile hb hd hwrite
    exact List.forall_mem_cons.mpr
      ⟨hbare.1.of_writeFile hb hd hwrite, ih (hput.base hb) hput.wellFormed hbare.2 h⟩

/-- When a batch of bare names has been written, they are names, and there was room for their
paths. -/
theorem of_writeFiles (hb : d.Base base p) (hd : d.WellFormed)
    (hbare : ∀ a ∈ batch, Bare a.filename)
    (h : (writeFiles fileSystem schedule base batch).run d = (.ok (), d')) :
    ∀ a ∈ batch, IsName a.filename ∧ (Path.join base a.filename).utf8ByteSize < maxPath := by
  have hperm := schedule.arrange_perm batch
  have hnames := of_foldlM_writeIn hb hd (fun a ha => hbare a (hperm.subset ha))
    (run_writeFiles_eq_ok_iff.mp h)
  exact fun a ha => hnames a (hperm.symm.subset ha)

/-! ## The tree under the root -/

/-- A batch that has been written into a fresh directory is there as in a sink in memory. -/
theorem tree_of_writeFiles (hb : d.Base base p) (hd : d.WellFormed) (hstaging : IsName staging)
    (hnothing : d.at? (p ++ [staging]) = none) (hbare : ∀ a ∈ batch, Bare a.filename)
    (hdistinct : (batch.map Artifact.filename).Nodup) {endings : Nat → Ending}
    (h : (writeFiles fileSystem schedule (Path.join base staging) batch).run
      ((d.put (p ++ [staging]) .directory).withEndings endings) = (.ok (), d')) :
    (d.put (p ++ [staging]) .directory).Staged d' (p ++ [staging]) ∧
      ∀ (sink : MemorySink) q, d'.at? (p ++ [staging] ++ q) = (sink.writeAll batch).tree q := by
  obtain ⟨hmade, hbase⟩ := hb.made hd hstaging hnothing
  replace hmade := hmade.withEndings endings
  replace hbase := hbase.withEndings endings
  have hnames := of_writeFiles hbase hmade hbare h
  constructor
  · have hstaged := writeFiles_staged hbase hmade (fun a ha => (hbare a ha).staysInside) schedule
    rw [h] at hstaged
    exact hstaged.of_withEndings
  · intro sink
    obtain ⟨d₃, hrun, htree⟩ := writeFiles_tree hbase hmade
      ⟨fun a ha => (hnames a ha).1, hdistinct⟩ (fun a ha => (hnames a ha).2)
      (fun q => hd.at?_put_below hnothing (by simp) .directory) schedule sink
    rw [h] at hrun
    cases hrun
    exact htree

/-- A root that has been renamed to starts where its directory does. -/
theorem origin_of_rename {source : String} (h : d.rename source root = .ok d') :
    d.origin root = d.origin (Path.directory root) := by
  obtain ⟨-, t, -, ht, -, hname⟩ := resolve_of_rename h
  rw [Target.isName, Bool.and_eq_true, decide_eq_true_iff, decide_eq_true_iff] at hname
  obtain ⟨-, ⟨-, rfl⟩ | ⟨cs, hcs, -⟩⟩ := of_resolve ht
  · exact absurd rfl hname.1
  · rw [origin, origin, (Path.isDirectory_directory hcs hname.1).isAbsolute_eq]

section Swap

variable {e : Disk} (h : d.Poised base p staging parking)
  (habsolute : d.absolute (Path.directory root) = base)
  (haside : d.isPresent root = false ∧ e = d ∨
    d.rename root (Path.join (Path.join base parking) "output") = .ok e)
  (hinstall : e.rename (Path.join base staging) root = .ok d')

include h haside

private theorem wellFormed_between : e.WellFormed ∧ e.current = d.current := by
  rcases haside with ⟨-, rfl⟩ | haside
  · exact ⟨h.wellFormed, rfl⟩
  · exact h.wellFormed_aside haside

include hinstall

private theorem origin_staging_between :
    e.at? (e.origin (Path.join base staging)) = some .directory := by
  have hbase := h.base.of_rename h.stagingName (wellFormed_between h haside).1 hinstall
  rw [hbase.origin_join]
  rfl

include habsolute

private theorem origin_root_between : e.at? (e.origin root) = some .directory := by
  obtain ⟨he, hcurrent⟩ := wellFormed_between h haside
  have hbase := h.base.of_rename h.stagingName he hinstall
  have hway := (habsolute ▸ hbase).origin_directory h.wellFormed
    (origin_directory h.current (Path.directory root))
  rwa [origin_of_rename hinstall, origin, hcurrent]

private theorem staging_between : e.at? (p ++ [staging]) ≠ none := by
  obtain ⟨he, -⟩ := wellFormed_between h haside
  obtain ⟨-, -, hthere, -⟩ := of_rename he (origin_staging_between h haside hinstall)
    (origin_root_between h habsolute haside hinstall) hinstall
  rwa [(h.base.of_rename h.stagingName he hinstall).leads_join h.stagingName] at hthere

/-- The root stands beside the staged directory and the one for parking. -/
theorem exists_leads_root : ∃ last, d.leads root = p ++ [last] := by
  obtain ⟨he, hcurrent⟩ := wellFormed_between h haside
  obtain ⟨last, hlast⟩ := exists_leads_of_rename he (origin_staging_between h haside hinstall)
    (origin_root_between h habsolute haside hinstall) hinstall
  have hparent : d.leads (Path.directory root) = p := by
    rw [← follow_absolute h.wellFormed (origin_directory h.current _), habsolute, h.base.leads]
  rw [leads_congr hcurrent, leads_congr hcurrent, hparent] at hlast
  exact ⟨last, hlast⟩

/-- If the root were one of the two, the swap would fail: nothing can be moved into itself, and what
has been moved aside is not there. -/
theorem leads_root_ne : d.leads root ≠ p ++ [staging] ∧ d.leads root ≠ p ++ [parking] := by
  have hpresent : ∀ {name}, d.isPresent root = false ∧ e = d →
      d.at? (p ++ [name]) = some .directory → d.leads root ≠ p ++ [name] := by
    intro name ⟨habsent, hsame⟩ hat heq
    have hsource := origin_staging_between h haside hinstall
    have htarget := origin_root_between h habsolute haside hinstall
    rw [hsame] at hsource htarget hinstall
    rw [isPresent_of_rename h.wellFormed hsource htarget hinstall (heq ▸ hat)] at habsent
    cases habsent
  have hthere := staging_between h habsolute haside hinstall
  rcases haside with habsent | haside
  · exact ⟨hpresent habsent h.staged, hpresent habsent h.parked⟩
  · exact ⟨h.ne_staging_of_aside haside hthere, h.ne_parking_of_aside haside⟩

/-- So the way to the root leads through neither of them. -/
theorem not_below_root :
    ¬p ++ [staging] <+: d.leads root ∧ ¬p ++ [parking] <+: d.leads root := by
  obtain ⟨last, hlast⟩ := exists_leads_root h habsolute haside hinstall
  obtain ⟨hstaging, hparking⟩ := leads_root_ne h habsolute haside hinstall
  rw [hlast] at hstaging hparking ⊢
  exact ⟨fun hpre => hstaging (hpre.eq_of_length (by simp)).symm,
    fun hpre => hparking (hpre.eq_of_length (by simp)).symm⟩

end Swap

/-- After a swap that succeeds, the root holds what was staged. -/
theorem under_of_swapIn (h : d.Poised base p staging parking)
    (habsolute : d.absolute (Path.directory root) = base)
    (hswap : (swapIn fileSystem (Path.join base staging) root
      (Path.join (Path.join base parking) "output")).run d = (.ok (), d')) :
    (d'.removeTree (Path.join base parking)).under root = fun q => d.at? (p ++ [staging] ++ q) := by
  obtain ⟨e, haside, hinstall⟩ := of_swapIn hswap
  obtain ⟨he, hcurrent⟩ := wellFormed_between h haside
  have hleads : e.leads root = d.leads root := leads_congr hcurrent root
  obtain ⟨hoff, hoff'⟩ := not_below_root h habsolute haside hinstall
  obtain ⟨hcurrent', harrived⟩ := installed he (h.base.of_rename h.stagingName he hinstall)
    (origin_root_between h habsolute haside hinstall) h.stagingName h.parkingName (hleads ▸ hoff)
    (hleads ▸ hoff') hinstall
  funext q
  rw [under, leads_congr hcurrent', harrived]
  have hthere := staging_between h habsolute haside hinstall
  -- The staged directory has stayed as it was while an old root was parked.
  rcases haside with ⟨-, rfl⟩ | haside
  · rfl
  · exact h.kept_aside hoff hoff' haside hthere q

/-- When a batch with distinct bare names is written to a root, whatever that is and whatever the
temporary directories are called, the root holds what a sink in memory holds after the batch. -/
theorem under_of_writeAll (hd : d.WellFormed) (hcurrent : d.at? d.current = some .directory)
    (hbare : ∀ a ∈ batch, Bare a.filename) (hdistinct : (batch.map Artifact.filename).Nodup)
    (h : (writeAll fileSystem schedule root batch).run d = (.ok (), d')) (sink : MemorySink) :
    d'.under root = (sink.writeAll batch).tree := by
  obtain ⟨d₁, staging, d₂, d₃, parking, d₄, d₅, hmake, hstage, hwrite, hpark, hswap, rfl⟩ :=
    of_writeAll h
  obtain ⟨places, hgrown⟩ := grown_of_makeDirectories hd hcurrent hmake
  have hd₁ := hgrown.wellFormed
  have hcurrent₁ : d₁.at? d₁.current = some .directory := by
    rw [hgrown.current, hgrown.at?_directory hcurrent]
  obtain ⟨ending, endings, rfl, hname, p, hbase, hnothing, rfl⟩ :=
    of_makeTemporary hd₁ isStem_stagingStem hstage
  obtain ⟨hstaged, htree⟩ :=
    tree_of_writeFiles hbase hd₁ hname hnothing hbare hdistinct hwrite
  have hgrown₂ := grown_put hd₁ hbase.directory hname hnothing
  have hcurrent₃ : d₃.current = d₁.current := hstaged.current
  have hdirectory₃ : d₃.at? d₃.current = some .directory := by
    rw [hcurrent₃]
    exact hstaged.directory _ (hgrown₂.at?_directory hcurrent₁)
  obtain ⟨ending', endings', rfl, hname', p', hbase', hnothing', rfl⟩ :=
    of_makeTemporary hstaged.wellFormed isStem_parkingStem hpark
  have habsolute : d₃.absolute (Path.directory root) = d₁.absolute (Path.directory root) := by
    rw [absolute, absolute, hcurrent₃]
  obtain rfl : p = p' := by
    rw [← hbase.leads, ← hbase'.leads, habsolute]
  rw [habsolute] at hbase' hswap ⊢
  have hne := (temporaryName_stems ending' ending).symm
  have hthere := hstaged.directory _ (at?_put_self (by simp) .directory)
  rw [under_of_swapIn (poised_put hstaged.wellFormed hdirectory₃ hbase' hname hname' hne hthere
    hnothing' endings') habsolute hswap]
  funext q
  rw [at?_withEndings, at?_put (by simp), if_neg, htree]
  intro heq
  have hbelow : p ++ [Path.temporaryName stagingStem ending] <+:
      p ++ [Path.temporaryName parkingStem ending'] ++ [] := by
    rw [List.append_nil, ← heq]
    exact List.prefix_append ..
  exact apart_names hne [] hbelow

end DirectorySink

end ApiTypings
