import ApiTypings.Proofs.Disk.Temporary
import ApiTypings.Sink.Directory

/-!
# Swapping a staged directory in

A root is ready when the directory it stands in is there and the ways to it do not lead through the
root. Then a staged directory beside the root takes its place, what was there before is parked and
dropped, and nothing else changes.
-/

namespace ApiTypings

namespace Disk

variable {d d' d'' : Disk} {p q : Place} {a b name : String}

/-- A well-formed disk that differs from an earlier one at some places and below them only. -/
structure Later (d d' : Disk) (changed : List Place) : Prop where
  wellFormed : d'.WellFormed
  current : d'.current = d.current
  frame : d.Frame d' changed

namespace Later

variable {changed changed' : List Place}

/-- Two changes are a change at both sets of places. -/
theorem trans (h : d.Later d' changed) (h' : d'.Later d'' changed) : d.Later d'' changed :=
  ⟨h'.wellFormed, h'.current.trans h.current, h.frame.trans h'.frame⟩

/-- A change at some places is one at places above them. -/
theorem mono (h : d.Later d' changed) (hsub : ∀ r ∈ changed, ∃ r' ∈ changed', r' <+: r) :
    d.Later d' changed' :=
  ⟨h.wellFormed, h.current, h.frame.mono hsub⟩

/-- Endings are at no place. -/
theorem withEndings (h : d.Later d' changed) (endings : Nat → Ending) :
    d.Later (d'.withEndings endings) changed :=
  ⟨h.wellFormed.withEndings endings, h.current, h.frame⟩

end Later

/-- Nothing is below two names in one directory. -/
theorem apart_names (h : a ≠ b) (q : Place) : ¬p ++ [a] <+: p ++ [b] ++ q := by
  rintro ⟨rest, heq⟩
  rw [List.append_assoc, List.append_assoc, List.append_cancel_left_eq] at heq
  exact h (List.cons.inj heq).1

/-- Where a root directory is, and how it is reached. -/
structure Site where
  /-- The path of the root. -/
  root : String
  /-- The components of that path before its last. -/
  before : List String
  /-- The last component of that path. -/
  name : String
  /-- The path of the directory in which the root stands. -/
  parent : String
  /-- The same from the root of the disk. -/
  base : String
  /-- The place of that directory. -/
  place : Place

/-- The place of a name beside the root. -/
def Site.beside (s : Site) (name : String) : Place := s.place ++ [name]

/-- A name beside a root is not the root of the disk. -/
theorem Site.beside_ne_nil (s : Site) (name : String) : s.beside name ≠ [] := by simp [beside]

/-- Names beside a root are apart, with all that is below them. -/
theorem Site.apart (s : Site) (h : a ≠ b) (q : Place) : ¬s.beside a <+: s.beside b ++ q :=
  apart_names h q

/-- Names beside a root are apart. -/
theorem Site.apart_beside (s : Site) (h : a ≠ b) : ¬s.beside a <+: s.beside b := by
  simpa only [List.append_nil] using s.apart h []

/-- The places that the two ways to the directory of the root lead through: that of the root's own
path, and that of its parent's path from the root of the disk. -/
def Site.ways (s : Site) (d : Disk) : List Place :=
  trail (d.origin s.root) s.before ++ trail [] (Path.components s.base)

/-- The directory in which a root stands is there, and no way to it leads through one of some names
beside the root. -/
structure Ready (d : Disk) (s : Site) (aside : List String) : Prop where
  wellFormed : d.WellFormed
  isPath : IsPath s.root s.before s.name
  isName : IsName s.name
  leads : follow (d.origin s.root) s.before = s.place
  absolute : d.absolute s.parent = s.base
  base : d.Base s.base s.place
  opened : d.Open (s.ways d)
  apart : ∀ q ∈ s.ways d, ∀ t ∈ aside, ¬s.beside t <+: q

namespace Ready

variable {s : Site} {aside : List String} {t : String} (h : d.Ready s aside)

include h

/-- A ready root leads to its name. -/
theorem leads_root : d.leads s.root = s.beside s.name := by
  rw [h.isPath.leads_eq, h.leads]
  exact step_of_name h.isName.ne_dot h.isName.ne_dots

private theorem opened_root : d.Open (trail (d.origin s.root) s.before) :=
  fun q hq => h.opened q (List.mem_append_left _ hq)

/-- A name that nothing has is on no way. -/
theorem setAside (hnothing : d.at? (s.beside t) = none) : d.Ready s (t :: aside) := by
  refine { h with apart := fun q hq => List.forall_mem_cons.mpr ⟨?_, h.apart q hq⟩ }
  rintro ⟨rest, rfl⟩
  have hdir := h.opened _ hq
  by_cases hnil : rest = []
  · rw [hnil, List.append_nil, hnothing] at hdir
    cases hdir
  · rw [h.wellFormed.nothing_below (by rw [hnothing]; simp) hnil] at hdir
    cases hdir

/-- Changes at the names that are set aside leave the root ready. -/
theorem later (hlater : d.Later d' (aside.map s.beside)) : d'.Ready s aside := by
  have horigin : d'.origin s.root = d.origin s.root := by rw [origin, origin, hlater.current]
  have hways : s.ways d' = s.ways d := by rw [Site.ways, Site.ways, horigin]
  have hopen : d'.Open (s.ways d) := by
    intro q hq
    rw [hlater.frame q, h.opened q hq]
    intro r hr
    obtain ⟨t, ht, rfl⟩ := List.mem_map.mp hr
    exact h.apart q hq t ht
  exact
    { wellFormed := hlater.wellFormed
      isPath := h.isPath
      isName := h.isName
      leads := by rw [horigin, h.leads]
      absolute := by rw [Disk.absolute, hlater.current, ← h.absolute, Disk.absolute]
      base := h.base.of_open fun q hq => hopen q (List.mem_append_right _ hq)
      opened := hways ▸ hopen
      apart := hways ▸ h.apart }

/-- A ready root is seen when it is there. -/
theorem isPresent_root (hat : d.at? (s.beside s.name) = none ∨
    d.at? (s.beside s.name) = some .directory) :
    d.isPresent s.root = (d.at? (s.beside s.name)).isSome := by
  rw [← h.leads_root] at hat ⊢
  rcases hat with hnone | hdir
  · rw [isPresent, find_nothing h.isPath h.wellFormed h.opened_root hnone, hnone]
    rfl
  · rw [isPresent, find_directory h.isPath h.wellFormed h.opened_root hdir, hdir]
    rfl

end Ready

private theorem run_rename_ok {source target : String} (h : d.rename source target = .ok d') :
    (fileSystem.rename source target).run d = (.ok (), d') := by
  simp only [fileSystem, attempt, StateT.run, h]

/-- A directory is made where there was nothing. -/
theorem later_put (hd : d.WellFormed) (hp : d.at? p = some .directory) (hname : IsName name) :
    d.Later (d.put (p ++ [name]) .directory) [p ++ [name]] :=
  ⟨hd.put hp hname (.inl rfl), rfl, frame_put (by simp) _⟩

/-- A directory that was moved to where there was nothing. -/
structure Moved (d d' : Disk) (source target : Place) : Prop where
  later : d.Later d' [source, target]
  arrived : ∀ q, d'.at? (target ++ q) = d.at? (source ++ q)
  left : ∀ q, d'.at? (source ++ q) = none

/-- A directory is moved to a name that nothing has. -/
theorem moved_move {source : Place} (hd : d.WellFormed) (hsource : source ≠ [])
    (hp : d.at? p = some .directory) (hname : IsName name) (hnone : d.at? (p ++ [name]) = none)
    (happart : ¬source <+: p ++ [name]) (happart' : ¬p ++ [name] <+: source) :
    d.Moved (d.move source (p ++ [name])) source (p ++ [name]) := by
  have hempty : ∀ q ≠ [], d.at? (p ++ [name] ++ q) = none := by
    intro q hq
    exact hd.nothing_below (by rw [hnone]; simp) hq
  have hmove := at?_move hsource (by simp) hempty happart
  refine
    { later := ⟨hd.move hsource hp hname hempty happart, rfl,
        frame_move hsource (by simp) hempty happart⟩
      arrived := fun q => by rw [hmove, if_pos (List.prefix_append ..), List.drop_left]
      left := fun q => ?_ }
  have hbelow : ¬p ++ [name] <+: source ++ q := by
    intro hpre
    exact (List.prefix_or_prefix_of_prefix hpre (List.prefix_append source q)).elim happart' happart
  rw [hmove, if_neg hbelow, if_pos (List.prefix_append ..)]

/-! ## The two moves of a swap -/

/-- The name under which the old root is parked. -/
theorem isName_output : IsName "output" where
  ne_empty := by decide
  slash := by decide
  null := by decide
  ne_dot := by decide
  ne_dots := by decide
  short := by decide

namespace Ready

variable {s : Site} {aside : List String} {staging parking : String} (h : d.Ready s aside)

include h

/-- The root is moved into a directory beside it. -/
theorem park (hparking : IsName parking) (hne : parking ≠ s.name)
    (hroot : d.at? (s.beside s.name) = some .directory)
    (hdir : d.at? (s.beside parking) = some .directory)
    (hnone : d.at? (s.beside parking ++ ["output"]) = none)
    (hroom : (Path.join (Path.join s.base parking) "output").utf8ByteSize < maxPath) :
    ∃ d', (fileSystem.rename s.root (Path.join (Path.join s.base parking) "output")).run d =
        (.ok (), d') ∧ d.Moved d' (s.beside s.name) (s.beside parking ++ ["output"]) := by
  have hbase := h.base.join hparking hdir
  have hleads := hbase.leads_join isName_output d
  have happart : ¬s.beside s.name <+: s.beside parking ++ ["output"] :=
    s.apart hne.symm _
  have happart' : ¬s.beside parking ++ ["output"] <+: s.beside s.name :=
    fun hpre => s.apart_beside hne ((List.prefix_append ..).trans hpre)
  have hrename := rename_eq h.isPath h.wellFormed h.opened_root
    (hbase.isPath_join isName_output hroom) (hbase.open_join _) h.isName isName_output
    (by rw [h.leads_root, hroot]) (hleads.symm ▸ hnone)
    (by rw [h.leads_root, hleads]; exact happart)
  rw [h.leads_root, hleads] at hrename
  exact ⟨_, run_rename_ok hrename, moved_move h.wellFormed (s.beside_ne_nil _) hdir
    isName_output hnone happart happart'⟩

/-- A directory beside the root is moved to where the root was. -/
theorem install (hstaging : IsName staging) (hne : staging ≠ s.name)
    (hroot : d.at? (s.beside s.name) = none)
    (hdir : d.at? (s.beside staging) = some .directory)
    (hroom : (Path.join s.base staging).utf8ByteSize < maxPath) :
    ∃ d', (fileSystem.rename (Path.join s.base staging) s.root).run d = (.ok (), d') ∧
      d.Moved d' (s.beside staging) (s.beside s.name) := by
  have hleads : d.leads (Path.join s.base staging) = s.beside staging :=
    h.base.leads_join hstaging d
  have hrename := rename_eq (h.base.isPath_join hstaging hroom) h.wellFormed (h.base.open_join _)
    h.isPath h.opened_root hstaging h.isName (by rw [hleads, hdir])
    (by rw [h.leads_root, hroot]) (by rw [hleads, h.leads_root]; exact s.apart_beside hne)
  rw [h.leads_root, hleads] at hrename
  exact ⟨_, run_rename_ok hrename, moved_move h.wellFormed (s.beside_ne_nil _)
    h.base.directory h.isName hroot (s.apart_beside hne) (s.apart_beside hne.symm)⟩

end Ready

/-- The staged directory is where the root was, and what the root held is parked. -/
structure Swapped (d d' : Disk) (s : Site) (staging parking : String) : Prop where
  later : d.Later d' ([parking, staging, s.name].map s.beside)
  arrived : ∀ q, d'.at? (s.beside s.name ++ q) = d.at? (s.beside staging ++ q)
  left : ∀ q, d'.at? (s.beside staging ++ q) = none
  parked : d'.at? (s.beside parking) = some .directory

namespace Ready

variable {s : Site} {aside inside : List String} {stem : String} (h : d.Ready s aside)

include h

/-- A temporary directory is made beside the root, under a name that nothing had. -/
theorem makeTemporary (hstem : IsStem stem) (hfree : ∃ number < FileSystem.maxTries,
      d.Free s.base s.place inside (Path.temporaryName stem (d.endings number))) :
    ∃ number endings, IsName (Path.temporaryName stem (d.endings number)) ∧
      d.Free s.base s.place inside (Path.temporaryName stem (d.endings number)) ∧
      (fileSystem.makeTemporary s.parent stem).run d =
        (.ok (Path.join s.base (Path.temporaryName stem (d.endings number))),
          (d.put (s.beside (Path.temporaryName stem (d.endings number))) .directory).withEndings
            endings) ∧
      ((d.put (s.beside (Path.temporaryName stem (d.endings number))) .directory).withEndings
        endings).Ready s (Path.temporaryName stem (d.endings number) :: aside) := by
  obtain ⟨number, hnumber, hfree⟩ := hfree
  have hbase := h.base
  rw [← h.absolute] at hbase hfree ⊢
  obtain ⟨first, endings, hfirst, hrun⟩ :=
    makeTemporary_eq hbase h.wellFormed hstem hnumber hfree
  have hname := hstem.isName hfirst.short
  refine ⟨first, endings, hname, hfirst, hrun, (h.setAside hfirst.nothing).later ?_⟩
  exact ((later_put h.wellFormed h.base.directory hname).withEndings endings).mono
    (by simp [Site.beside])

/-- A temporary directory is removed with what is in it. -/
theorem run_removeTree (hname : IsName name)
    (hroom : (Path.join s.base name).utf8ByteSize < maxPath)
    (hdir : d.at? (s.beside name) = some .directory) :
    (fileSystem.removeTree (Path.join s.base name)).run d = ((), d.cut (s.beside name)) := by
  have hleads : d.leads (Path.join s.base name) = s.beside name := h.base.leads_join hname d
  have hremove := removeTree_eq (h.base.isPath_join hname hroom) h.wellFormed
    (h.base.open_join _) (hleads.symm ▸ hdir)
  rw [hleads] at hremove
  rw [← hremove]
  rfl

end Ready

namespace Moved

variable {s : Site} {staging parking : String}

/-- Without an old root one move is a swap. -/
theorem swapped (h : d.Moved d' (s.beside staging) (s.beside s.name)) (hne : parking ≠ s.name)
    (happart : staging ≠ parking) (hparked : d.at? (s.beside parking) = some .directory) :
    d.Swapped d' s staging parking where
  later := h.later.mono (by simp)
  arrived := h.arrived
  left := h.left
  parked := by
    rw [h.later.frame _ (by simp [s.apart_beside happart, s.apart_beside hne.symm]), hparked]

/-- What is parked is below a name that is set aside. -/
theorem later_parked (h : d.Moved d' (s.beside s.name) (s.beside parking ++ ["output"]))
    (staging : String) : d.Later d' ([parking, staging, s.name].map s.beside) := by
  refine h.later.mono ?_
  rw [List.forall_mem_cons, List.forall_mem_singleton]
  exact ⟨⟨s.beside s.name, by simp, List.prefix_refl _⟩,
    ⟨s.beside parking, by simp, List.prefix_append ..⟩⟩

/-- With an old root two moves are a swap. -/
theorem trans_swapped (h : d.Moved d' (s.beside s.name) (s.beside parking ++ ["output"]))
    (h' : d'.Moved d'' (s.beside staging) (s.beside s.name)) (hne : staging ≠ s.name)
    (hne' : parking ≠ s.name) (happart : staging ≠ parking)
    (hparked : d.at? (s.beside parking) = some .directory) :
    d.Swapped d'' s staging parking where
  later := (h.later_parked staging).trans (h'.later.mono (by simp))
  arrived := by
    intro q
    rw [h'.arrived, h.later.frame]
    rw [List.forall_mem_cons, List.forall_mem_singleton]
    exact ⟨s.apart hne.symm q,
      fun hpre => s.apart happart.symm q ((List.prefix_append ..).trans hpre)⟩
  left := h'.left
  parked := by
    have hbelow : ¬s.beside parking ++ ["output"] <+: s.beside parking :=
      fun hpre => absurd hpre.length_le (by simp)
    rw [h'.later.frame _ (by simp [s.apart_beside happart, s.apart_beside hne'.symm]),
      h.later.frame _ (by simp [s.apart_beside hne'.symm, hbelow]), hparked]

end Moved

/-- Once the parked directory is dropped, all that has happened is a move. -/
theorem Swapped.moved {s : Site} {staging parking : String} {endings : Nat → Ending}
    (h : ((d.put (s.beside parking) .directory).withEndings endings).Swapped d' s staging parking)
    (hd : d.WellFormed)
    (hne : parking ≠ s.name) (happart : staging ≠ parking)
    (hnothing : d.at? (s.beside parking) = none) :
    d.Moved (d'.cut (s.beside parking)) (s.beside staging) (s.beside s.name) := by
  have hcut := at?_cut (d := d') (s.beside_ne_nil parking)
  have hput := at?_put (d := d) (s.beside_ne_nil parking) .directory
  refine
    { later := ⟨h.later.wellFormed.cut (s.beside_ne_nil _), h.later.current, fun q hq => ?_⟩
      arrived := fun q => ?_
      left := fun q => by rw [hcut, if_neg (s.apart happart.symm q), h.left] }
  · rw [hcut]
    split
    · next hbelow => rw [hd.empty_below hnothing hbelow]
    · next hbelow =>
      have hself : q ≠ s.beside parking := by
        rintro rfl
        exact hbelow (List.prefix_refl _)
      rw [List.forall_mem_cons, List.forall_mem_singleton] at hq
      rw [h.later.frame q (by simp [hbelow, hq]), at?_withEndings, hput, if_neg hself]
  · have hself : s.beside staging ++ q ≠ s.beside parking := by
      intro heq
      exact s.apart_beside happart ⟨q, heq⟩
    rw [hcut, if_neg (s.apart hne q), h.arrived, at?_withEndings, hput, if_neg hself]

end Disk

namespace DirectorySink

open Disk

variable {d d' d₁ d₂ : Disk} {s : Site} {staging parking staged root parked : String}
  {aside : List String} {result : Except DiskFailure Unit}

private theorem run_swapIn_absent (habsent : d.isPresent root = false)
    (hinstall : (fileSystem.rename staged root).run d = (.ok (), d')) :
    (swapIn fileSystem staged root parked).run d = (.ok (), d') := by
  have hpresent : (fileSystem.isPresent root).run d = (false, d) := by
    rw [← habsent]
    rfl
  rw [swapIn, run_bind_of_run hpresent, if_neg Bool.false_ne_true, run_bind_of_run hinstall]
  rfl

private theorem run_swapIn_present (hthere : d.isPresent root = true)
    (hpark : (fileSystem.rename root parked).run d = (.ok (), d₁))
    (hinstall : (fileSystem.rename staged root).run d₁ = (.ok (), d')) :
    (swapIn fileSystem staged root parked).run d = (.ok (), d') := by
  have hpresent : (fileSystem.isPresent root).run d = (true, d) := by
    rw [← hthere]
    rfl
  rw [swapIn, run_bind_of_run hpresent, if_pos rfl, run_bind_of_run hpark]
  dsimp only
  rw [run_bind_of_run hinstall]
  rfl

/-- The stem of parking directories is one. -/
theorem isStem_parkingStem : IsStem parkingStem := ⟨by decide, by decide⟩

/-- The stem of staging directories is one. -/
theorem isStem_stagingStem : IsStem stagingStem := ⟨by decide, by decide⟩

/-- Both moves of a swap succeed beside a ready root. -/
theorem swapIn_swaps (h : d.Ready s [parking, staging, s.name])
    (hstaging : IsName staging) (hparking : IsName parking) (hne : staging ≠ s.name)
    (hne' : parking ≠ s.name) (happart : staging ≠ parking)
    (hroot : d.at? (s.beside s.name) = none ∨ d.at? (s.beside s.name) = some .directory)
    (hstaged : d.at? (s.beside staging) = some .directory)
    (hparked : d.at? (s.beside parking) = some .directory)
    (hempty : d.at? (s.beside parking ++ ["output"]) = none)
    (hroom : (Path.join s.base staging).utf8ByteSize < maxPath)
    (hroom' : (Path.join (Path.join s.base parking) "output").utf8ByteSize < maxPath) :
    ∃ d', (swapIn fileSystem (Path.join s.base staging) s.root
        (Path.join (Path.join s.base parking) "output")).run d = (.ok (), d') ∧
      d.Swapped d' s staging parking := by
  have hpresent := h.isPresent_root hroot
  rcases hroot with hnone | hdir
  · rw [hnone] at hpresent
    obtain ⟨d', hinstall, hmoved⟩ := h.install hstaging hne hnone hstaged hroom
    exact ⟨d', run_swapIn_absent hpresent hinstall, hmoved.swapped hne' happart hparked⟩
  · rw [hdir] at hpresent
    obtain ⟨d₁, hpark, hmoved⟩ := h.park hparking hne' hdir hparked hempty hroom'
    have hnone : d₁.at? (s.beside s.name) = none := by
      rw [← List.append_nil (s.beside s.name), hmoved.left]
    have hstaged' : d₁.at? (s.beside staging) = some .directory := by
      rw [hmoved.later.frame, hstaged]
      rw [List.forall_mem_cons, List.forall_mem_singleton]
      exact ⟨s.apart_beside hne.symm,
        fun hpre => s.apart_beside happart.symm ((List.prefix_append ..).trans hpre)⟩
    obtain ⟨d', hinstall, hmoved'⟩ := (h.later (hmoved.later_parked staging)).install hstaging hne
      hnone hstaged' hroom
    exact ⟨d', run_swapIn_present hpresent hpark hinstall,
      hmoved.trans_swapped hmoved' hne hne' happart hparked⟩

private theorem run_replace {parent parking : String} (hpark :
      (fileSystem.makeTemporary parent parkingStem).run d = (.ok parking, d₁))
    (hswap : (swapIn fileSystem staged root (Path.join parking "output")).run d₁ = (result, d₂))
    (hremove : (fileSystem.removeTree parking).run d₂ = ((), d')) :
    (replace fileSystem parent staged root).run d = (result, d') := by
  rw [replace, run_bind_of_run hpark]
  dsimp only
  rw [run_bind_of_run hswap, run_bind_of_run hremove]
  rfl

/-- A staged directory replaces a ready root, and nothing is left beside it. -/
theorem replace_moves (h : d.Ready s [staging, s.name]) (hstaging : IsName staging)
    (hne : staging ≠ s.name)
    (hparking : ∀ number, Path.temporaryName parkingStem (d.endings number) ≠ staging ∧
      Path.temporaryName parkingStem (d.endings number) ≠ s.name)
    (hroot : d.at? (s.beside s.name) = none ∨ d.at? (s.beside s.name) = some .directory)
    (hstaged : d.at? (s.beside staging) = some .directory)
    (hroom : (Path.join s.base staging).utf8ByteSize < maxPath)
    (hfree : ∃ number < FileSystem.maxTries,
      d.Free s.base s.place ["output"] (Path.temporaryName parkingStem (d.endings number))) :
    ∃ d', (replace fileSystem s.parent (Path.join s.base staging) s.root).run d = (.ok (), d') ∧
      d.Moved d' (s.beside staging) (s.beside s.name) := by
  obtain ⟨number, endings, hname, hfree, hpark, hready⟩ :=
    h.makeTemporary isStem_parkingStem hfree
  obtain ⟨happart, hne'⟩ := hparking number
  have hbelow := h.wellFormed.at?_put_below hfree.nothing (s.beside_ne_nil _) .directory
    (List.cons_ne_nil "output" [])
  have hinside := hfree.roomInside "output" (List.mem_singleton_self _) isName_output
  have hroom' := Nat.lt_of_le_of_lt (Path.utf8ByteSize_join_le_add _ "output") hinside
  have hother : ∀ name, name ≠ Path.temporaryName parkingStem (d.endings number) →
      (d.put (s.beside (Path.temporaryName parkingStem (d.endings number))) .directory).at?
        (s.beside name) = d.at? (s.beside name) := by
    intro name hname
    rw [at?_put (s.beside_ne_nil _), if_neg]
    exact fun heq => hname (List.append_singleton_inj.mp heq).2
  obtain ⟨d₂, hswap, hswapped⟩ := swapIn_swaps hready hstaging hname hne hne' happart.symm
    (by rw [at?_withEndings, hother _ hne'.symm]; exact hroot)
    (by rw [at?_withEndings, hother _ happart.symm, hstaged])
    (at?_put_self (s.beside_ne_nil _) .directory) hbelow hroom hroom'
  have hremove := (hready.later hswapped.later).run_removeTree hname hfree.room hswapped.parked
  exact ⟨_, run_replace hpark hswap hremove,
    hswapped.moved h.wellFormed hne' happart.symm hfree.nothing⟩

end DirectorySink

end ApiTypings
