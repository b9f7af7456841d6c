import ApiTypings.Proofs.Sink.Drawing
import ApiTypings.Proofs.Sink.Swapping

/-!
# Replacing a root by a batch

Once the directory of a root is there, a batch whose names stay inside is either written as a whole
or not at all. In both cases nothing changes outside the root, and no temporary directory is left.
-/

namespace ApiTypings

namespace Disk

variable {d d' d'' : Disk} {s : Site} {p : Place} {name : String}

/-- What is at a place and below it has been replaced by a tree, and nothing else has changed. -/
structure Replaced (d d' : Disk) (p : Place) (tree : Place → Option DiskNode) : Prop where
  wellFormed : d'.WellFormed
  current : d'.current = d.current
  inside : ∀ q, d'.at? (p ++ q) = tree q
  outside : ∀ q, ¬p <+: q → d'.at? q = d.at? q

/-- Whether a name is free depends on what has the name. -/
theorem Free.congr {base : String} {inside : List String} (h : d.Free base p inside name)
    (hat : d'.at? (p ++ [name]) = none) : d'.Free base p inside name :=
  ⟨hat, h.short, h.room, h.roomInside⟩

namespace Staged

/-- A staged directory changes nothing that is not below it. -/
theorem later (h : d.Staged d' p) : d.Later d' [p] where
  wellFormed := h.wellFormed
  current := h.current
  frame := by
    intro q hq
    apply h.elsewhere
    rintro rest - rfl
    exact hq p (List.mem_singleton_self p) (List.prefix_append p rest)

/-- Dropping a staged directory that was made where nothing was undoes everything. -/
theorem dropped (h : (d.put p .directory).Staged d' p) (hd : d.WellFormed) (hp : p ≠ [])
    (hnothing : d.at? p = none) (q : Place) : (d'.cut p).at? q = d.at? q := by
  rw [at?_cut hp]
  split
  · next hbelow => rw [hd.empty_below hnothing hbelow]
  · next hbelow =>
    have hself : q ≠ p := by
      rintro rfl
      exact hbelow (List.prefix_refl q)
    rw [h.later.frame q (by simpa using hbelow), at?_put hp, if_neg hself]

/-- A staged directory leaves every other name beside the root. -/
theorem at?_beside {staging : String}
    (h : (d.put (s.beside staging) .directory).Staged d' (s.beside staging))
    (hne : name ≠ staging) :
    d'.at? (s.beside name) = d.at? (s.beside name) := by
  have hself : s.beside name ≠ s.beside staging :=
    fun heq => hne (List.append_singleton_inj.mp heq).2
  have hapart : ∀ r ∈ [s.beside staging], ¬r <+: s.beside name :=
    List.forall_mem_singleton.mpr (s.apart_beside hne.symm)
  rw [h.later.frame _ hapart, at?_put (s.beside_ne_nil staging), if_neg hself]

/-- A staged directory that is moved to the root replaces it. -/
theorem replaced {staging : String}
    (h : (d.put (s.beside staging) .directory).Staged d' (s.beside staging))
    (hmoved : d'.Moved d'' (s.beside staging) (s.beside s.name)) (hd : d.WellFormed)
    (hnothing : d.at? (s.beside staging) = none) :
    d.Replaced d'' (s.beside s.name) fun q => d'.at? (s.beside staging ++ q) where
  wellFormed := hmoved.later.wellFormed
  current := hmoved.later.current.trans h.current
  inside := hmoved.arrived
  outside := by
    intro q hroot
    by_cases hbelow : s.beside staging <+: q
    · rw [hd.empty_below hnothing hbelow]
      obtain ⟨rest, rfl⟩ := hbelow
      exact hmoved.left rest
    · have hself : q ≠ s.beside staging := by
        rintro rfl
        exact hbelow (List.prefix_refl _)
      rw [hmoved.later.frame q (by simp [hbelow, hroot]), h.later.frame q (by simpa using hbelow),
        at?_put (s.beside_ne_nil _), if_neg hself]

end Staged

end Disk

namespace DirectorySink

open Disk

variable {d d' d₁ d₂ d₃ : Disk} {s : Site} {root staging : String} {batch : List Artifact}
  {schedule : Schedule} {result : Except DiskFailure Unit} {failure : DiskFailure}

/-- What a batch does to the tree under a root: a batch that is written makes it a directory, and
a plain one makes it what a sink in memory holds; a batch that fails leaves it. -/
inductive Effect (old : Place → Option DiskNode) (batch : List Artifact) :
    Except DiskFailure Unit → (Place → Option DiskNode) → Prop
  | written (tree : Place → Option DiskNode) (directory : tree [] = some .directory)
      (plain : Plain batch → ∀ sink : MemorySink, tree = (sink.writeAll batch).tree) :
      Effect old batch (.ok ()) tree
  | failed (name : String) (fault : DiskFault) (notPlain : ¬Plain batch) :
      Effect old batch (.error ⟨.write name, fault⟩) old

/-- What the endings in store must be like for a batch: temporary names are no components of the
root's path, and among the names tried next there always is a free one that is not too long, for
either temporary directory. -/
structure HasRoom (d : Disk) (s : Site) (batch : List Artifact) : Prop where
  apart : ∀ stem ∈ [stagingStem, parkingStem], ∀ number,
    Path.temporaryName stem (d.endings number) ∉ Path.components s.root
  staging : ∀ drawn, ∃ number < FileSystem.maxTries, d.Free s.base s.place
    (batch.map Artifact.filename) (Path.temporaryName stagingStem (d.endings (drawn + number)))
  parking : ∀ drawn, ∃ number < FileSystem.maxTries, d.Free s.base s.place
    ["output"] (Path.temporaryName parkingStem (d.endings (drawn + number)))

/-- There still is room when endings have been drawn, as long as no names are taken that components
of the root's path do not have. -/
theorem HasRoom.later (h : HasRoom d s batch) (hdrawn : d.Drawn d')
    (hat : ∀ name ∉ Path.components s.root,
      d.at? (s.beside name) = none → d'.at? (s.beside name) = none) : HasRoom d' s batch := by
  obtain ⟨k, hk⟩ := hdrawn
  have hfree : ∀ {stem inside}, stem ∈ [stagingStem, parkingStem] →
      (∀ drawn, ∃ number < FileSystem.maxTries, d.Free s.base s.place inside
        (Path.temporaryName stem (d.endings (drawn + number)))) →
      ∀ drawn, ∃ number < FileSystem.maxTries, d'.Free s.base s.place inside
        (Path.temporaryName stem (d'.endings (drawn + number))) := by
    intro stem inside hstem hroom drawn
    obtain ⟨number, hnumber, hfree⟩ := hroom (k + drawn)
    rw [Nat.add_assoc] at hfree
    refine ⟨number, hnumber, ?_⟩
    rw [hk]
    exact hfree.congr (hat _ (h.apart stem hstem _) hfree.nothing)
  refine ⟨fun stem hstem number => ?_, hfree (by simp) h.staging, hfree (by simp) h.parking⟩
  rw [hk]
  exact h.apart stem hstem _

/-- There is room in a directory where nothing has a temporary name, if no path gets too long. -/
theorem HasRoom.of_nothing (hapart : ∀ stem ∈ [stagingStem, parkingStem], ∀ number,
      Path.temporaryName stem (d.endings number) ∉ Path.components s.root)
    (hnothing : ∀ stem ∈ [stagingStem, parkingStem], ∀ number,
      d.at? (s.beside (Path.temporaryName stem (d.endings number))) = none)
    (hbase : s.base.utf8ByteSize + 40 < maxPath)
    (hbatch : ∀ a ∈ batch, s.base.utf8ByteSize + 30 + a.filename.utf8ByteSize < maxPath) :
    HasRoom d s batch := by
  have hfree : ∀ stem ∈ [stagingStem, parkingStem], ∀ inside : List String,
      (∀ name ∈ inside, s.base.utf8ByteSize + 30 + name.utf8ByteSize < maxPath) → ∀ number,
      d.Free s.base s.place inside (Path.temporaryName stem (d.endings number)) := by
    intro stem hstem inside hinside number
    have hsize : stem.utf8ByteSize ≤ 19 := by
      revert stem
      decide
    have hname := Path.utf8ByteSize_temporaryName stem (d.endings number)
    have hjoin := Path.utf8ByteSize_join_le_add s.base (Path.temporaryName stem (d.endings number))
    have hmax : maxName = 255 := rfl
    refine ⟨hnothing stem hstem number, by omega, by omega, fun name hinside' _ => ?_⟩
    have hroom := hinside name hinside'
    omega
  refine ⟨hapart, fun drawn => ⟨0, by decide, hfree _ (by simp) _ ?_ _⟩,
    fun drawn => ⟨0, by decide, hfree _ (by simp) _ ?_ _⟩⟩
  · exact List.forall_mem_map.mpr hbatch
  · have houtput : "output".utf8ByteSize = 6 := by decide
    rw [List.forall_mem_singleton]
    omega

/-- One stem is longer than the other. -/
theorem temporaryName_stems (ending ending' : Ending) :
    Path.temporaryName parkingStem ending ≠ Path.temporaryName stagingStem ending' :=
  Path.temporaryName_ne (by rw [Path.utf8ByteSize_temporaryName]; decide)

private theorem run_writeAll_failed
    (hmake : (fileSystem.makeDirectories (Path.directory root)).run d = (.ok (), d₁))
    (hstage : (fileSystem.makeTemporary (Path.directory root) stagingStem).run d₁ =
      (.ok staging, d₂))
    (hwrite : (writeFiles fileSystem schedule staging batch).run d₂ = (.error failure, d₃))
    (hremove : (fileSystem.removeTree staging).run d₃ = ((), d')) :
    (writeAll fileSystem schedule root batch).run d = (.error failure, d') := by
  rw [writeAll, run_bind_of_run hmake]
  dsimp only
  rw [run_bind_of_run hstage]
  dsimp only
  rw [run_bind_of_run hwrite]
  dsimp only
  rw [pure_bind]
  dsimp only
  rw [run_bind_of_run hremove]
  rfl

private theorem run_writeAll_written
    (hmake : (fileSystem.makeDirectories (Path.directory root)).run d = (.ok (), d₁))
    (hstage : (fileSystem.makeTemporary (Path.directory root) stagingStem).run d₁ =
      (.ok staging, d₂))
    (hwrite : (writeFiles fileSystem schedule staging batch).run d₂ = (.ok (), d₃))
    (hreplace : (replace fileSystem (Path.directory root) staging root).run d₃ = (.ok (), d')) :
    (writeAll fileSystem schedule root batch).run d = (.ok (), d') := by
  rw [writeAll, run_bind_of_run hmake]
  dsimp only
  rw [run_bind_of_run hstage]
  dsimp only
  rw [run_bind_of_run hwrite]
  dsimp only
  rw [run_bind_of_run hreplace]
  rfl

/-- In an empty directory a batch fails at one of its names, or all its files are there; a plain
batch does not fail. -/
theorem writeFiles_outcome {base : String} {p : Place} (hb : d.Base base p) (hd : d.WellFormed)
    (hinside : StaysInside batch) (hroom : ∀ a ∈ batch, IsName a.filename →
      (Path.join base a.filename).utf8ByteSize < maxPath)
    (hempty : ∀ q ≠ [], d.at? (p ++ q) = none) (schedule : Schedule) :
    ∃ d', d.Staged d' p ∧
      ((∃ name fault, ¬Plain batch ∧
          (writeFiles fileSystem schedule base batch).run d = (.error ⟨.write name, fault⟩, d')) ∨
        ((writeFiles fileSystem schedule base batch).run d = (.ok (), d') ∧
          (Plain batch → ∀ (sink : MemorySink) q,
            d'.at? (p ++ q) = (sink.writeAll batch).tree q))) := by
  have hstaged := writeFiles_staged hb hd hinside schedule
  have hresult := writeFiles_result schedule base batch d
  have hplain : Plain batch → ∀ sink : MemorySink,
      ((writeFiles fileSystem schedule base batch).run d).1 = .ok () ∧
        ∀ q, ((writeFiles fileSystem schedule base batch).run d).2.at? (p ++ q) =
          (sink.writeAll batch).tree q := by
    intro hplain sink
    obtain ⟨d', hrun, htree⟩ := writeFiles_tree hb hd hplain
      (fun a ha => hroom a ha (hplain.isName a ha)) hempty schedule sink
    rw [hrun]
    exact ⟨rfl, htree⟩
  refine ⟨_, hstaged, ?_⟩
  rcases hresult with hok | ⟨a, -, fault, herror⟩
  · exact .inr ⟨Prod.ext hok rfl, fun h sink => (hplain h sink).2⟩
  · refine .inl ⟨a.filename, fault, fun h => ?_, Prod.ext herror rfl⟩
    rw [(hplain h {}).1] at herror
    cases herror

/-- A batch whose names stay inside is written as a whole or not at all, and changes nothing outside
the root. -/
theorem writeAll_replaces (hmake : (fileSystem.makeDirectories s.parent).run d = (.ok (), d₁))
    (h : d₁.Ready s [s.name]) (hparent : s.parent = Path.directory s.root)
    (hroot : d₁.at? (s.beside s.name) = none ∨ d₁.at? (s.beside s.name) = some .directory)
    (hinside : StaysInside batch) (hroom : HasRoom d₁ s batch) (schedule : Schedule) :
    ∃ result tree d', (writeAll fileSystem schedule s.root batch).run d = (result, d') ∧
      Effect (fun q => d₁.at? (s.beside s.name ++ q)) batch result tree ∧
      d₁.Replaced d' (s.beside s.name) tree := by
  have hapart : ∀ {stem ending}, stem ∈ [stagingStem, parkingStem] →
      (∃ number, d₁.endings number = ending) → Path.temporaryName stem ending ≠ s.name := by
    rintro stem _ hstem ⟨number, rfl⟩ heq
    refine hroom.apart stem hstem number ?_
    rw [heq, h.isPath.components]
    exact List.mem_append_right _ (List.mem_singleton_self _)
  have hfirst := hroom.staging 0
  simp only [Nat.zero_add] at hfirst
  obtain ⟨number, endings, hname, hfree, hstage, hready⟩ :=
    h.makeTemporary isStem_stagingStem hfirst
  have hne := hapart (List.mem_cons_self ..) ⟨number, rfl⟩
  have hdistinct := fun ending => temporaryName_stems ending (d₁.endings number)
  generalize Path.temporaryName stagingStem (d₁.endings number) = staging at *
  have hdir := at?_put_self (d := d₁) (s.beside_ne_nil staging) .directory
  have hbase := hready.base.join hname hdir
  obtain ⟨d₃, hstaged, houtcome⟩ := writeFiles_outcome hbase hready.wellFormed hinside
    (fun a ha hname => Nat.lt_of_le_of_lt (Path.utf8ByteSize_join_le_add _ _)
      (hfree.roomInside _ (List.mem_map_of_mem ha) hname))
    (fun q => h.wellFormed.at?_put_below hfree.nothing (s.beside_ne_nil staging) .directory)
    schedule
  have hready₃ := hready.later (hstaged.later.mono (by simp [Site.beside]))
  have hdir₃ := hstaged.directory _ hdir
  have hstaged := hstaged.of_withEndings
  rw [hparent] at hmake hstage
  rcases houtcome with ⟨name, fault, hplain, hwrite⟩ | ⟨hwrite, hplain⟩
  · have hremove := hready₃.run_removeTree hname hfree.room hdir₃
    have hsame := hstaged.dropped h.wellFormed (s.beside_ne_nil _) hfree.nothing
    exact ⟨_, _, _, run_writeAll_failed hmake hstage hwrite hremove, .failed name fault hplain,
      hstaged.wellFormed.cut (s.beside_ne_nil _), hstaged.current, fun q => hsame _,
      fun q _ => hsame q⟩
  · -- The endings that are left are among those that were in store before.
    obtain ⟨k, hk⟩ : d₁.Drawn d₃ := ((drawing_makeTemporary _ _).of_run hstage).trans
      ((drawing_writeFiles _ _ _).of_run hwrite)
    obtain ⟨m, hm, hfree'⟩ := hroom.parking k
    rw [← hk] at hfree'
    obtain ⟨d', hreplace, hmoved⟩ := replace_moves hready₃ hname hne
      (fun n => ⟨hdistinct _, hapart (by simp) ⟨k + n, (hk n).symm⟩⟩)
      (by rw [hstaged.at?_beside hne.symm]; exact hroot) hdir₃ hfree.room
      ⟨m, hm, hfree'.congr ((hstaged.at?_beside (hdistinct _)).trans hfree'.nothing)⟩
    rw [hparent] at hreplace
    refine ⟨_, _, d', run_writeAll_written hmake hstage hwrite hreplace, .written _ ?_ ?_,
      hstaged.replaced hmoved h.wellFormed hfree.nothing⟩
    · rw [List.append_nil, hdir₃]
    · exact fun h sink => funext (hplain h sink)

end DirectorySink

end ApiTypings
