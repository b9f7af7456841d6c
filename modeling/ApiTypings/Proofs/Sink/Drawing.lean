import ApiTypings.Proofs.Disk.Temporary
import ApiTypings.Proofs.Sink.Staging
import ApiTypings.Proofs.Success

/-!
# Drawing endings

Whatever is done with a disk, the endings that it has in store afterwards are those that it had,
without the ones that have been drawn.
-/

namespace ApiTypings

namespace Disk

variable {α β : Type} {x : StateM Disk α} {f : α → StateM Disk β} {d d' : Disk}

/-- A computation that does nothing with the endings in store but draw some of them. -/
def Drawing (x : StateM Disk α) : Prop := ∀ d : Disk, d.Drawn (x.run d).2

private theorem drawing_pure (a : α) : Drawing (pure a : StateM Disk α) := Drawn.refl

/-- Drawing endings and then more is drawing. -/
theorem Drawing.bind (hx : Drawing x) (hf : ∀ a, Drawing (f a)) : Drawing (x >>= f) :=
  fun d => (hx d).trans (hf _ _)

/-- After a run of what draws endings those taken from the front of the store are gone. -/
theorem Drawing.of_run {a : α} (hx : Drawing x) (h : x.run d = (a, d')) : d.Drawn d' := by
  have hdrawn := hx d
  rwa [h] at hdrawn

/-! ## Operations -/

private theorem drawing_attempt {change : Disk → Except DiskFault Disk}
    (h : ∀ {d d'}, change d = .ok d' → d'.endings = d.endings) : Drawing (attempt change) := by
  intro d
  cases hchange : change d with
  | ok d' =>
    have hrun : (attempt change).run d = (.ok (), d') := by
      simp only [attempt, StateT.run, hchange]
    rw [hrun]
    exact .of_eq (h hchange)
  | error fault =>
    have hrun : (attempt change).run d = (.error fault, d) := by
      simp only [attempt, StateT.run, hchange]
    rw [hrun]
    exact .refl d

private theorem endings_of_makeDirectory {path : String} (h : d.makeDirectory path = .ok d') :
    d'.endings = d.endings := by
  rw [makeDirectory] at h
  obtain ⟨target, -, h⟩ := exists_of_bind_ok h
  obtain ⟨place, -, h⟩ := exists_of_bind_ok h
  split at h
  · cases h
  · cases h
    rfl

private theorem endings_of_rename {source target : String} (h : d.rename source target = .ok d') :
    d'.endings = d.endings := by
  obtain ⟨s, t, hs, ht, h⟩ : ∃ s t, d.resolve source = .ok s ∧ d.resolve target = .ok t ∧ _ := by
    rw [rename] at h
    obtain ⟨s, hs, h⟩ := exists_of_bind_ok h
    obtain ⟨t, ht, h⟩ := exists_of_bind_ok h
    exact ⟨s, t, hs, ht, h⟩
  split at h
  · cases h
  obtain ⟨old, -, h⟩ := exists_of_bind_ok h
  obtain ⟨new, -, h⟩ := exists_of_bind_ok h
  split at h
  · cases h
  split at h
  · cases h
  split at h
  · cases h
    rfl
  split at h
  · cases h
  obtain ⟨_, -, h⟩ := exists_of_bind_ok h
  cases h
  rfl

private theorem drawing_makeDirectory (path : String) : Drawing (fileSystem.makeDirectory path) :=
  drawing_attempt endings_of_makeDirectory

private theorem drawing_rename (source target : String) :
    Drawing (fileSystem.rename source target) :=
  drawing_attempt endings_of_rename

private theorem drawing_removeTree (path : String) : Drawing (fileSystem.removeTree path) := by
  intro d
  change d.Drawn (d.removeTree path)
  rw [removeTree]
  split
  · exact .of_eq rfl
  · exact .refl d

private theorem drawn_makeTemporary (d : Disk) (directory stem : String) (tries : Nat) :
    d.Drawn (d.makeTemporary directory stem tries).2 := by
  induction tries generalizing d with
  | zero => exact .refl d
  | succ tries ih =>
    cases hmake : d.makeDirectory
        (Path.join (d.absolute directory) (Path.temporaryName stem (d.endings 0))) with
    | ok made =>
      rw [makeTemporary_made hmake]
      exact .trans (.of_eq (endings_of_makeDirectory hmake)) (drawn_drawn made)
    | error fault =>
      by_cases htaken : fault = .alreadyExists
      · rw [makeTemporary_taken (htaken ▸ hmake)]
        exact (drawn_drawn d).trans (ih d.drawn)
      · rw [makeTemporary_failed hmake htaken]
        exact drawn_drawn d

/-- Making a temporary directory takes endings from the front of the store only. -/
theorem drawing_makeTemporary (directory stem : String) :
    Drawing (fileSystem.makeTemporary directory stem) :=
  fun d => drawn_makeTemporary d directory stem FileSystem.maxTries

private theorem drawing_ensureDirectory (path : String) :
    Drawing (fileSystem.ensureDirectory path) := by
  refine (drawing_makeDirectory path).bind fun result => ?_
  cases result with
  | ok => exact drawing_pure _
  | error fault =>
    have htest : Drawing (fileSystem.isDirectory path) := Drawn.refl
    exact htest.bind fun present => drawing_pure _

/-- Making directories takes endings from the front of the store only. -/
theorem drawing_makeDirectories (path : String) : Drawing (fileSystem.makeDirectories path) := by
  -- A directory is made after its parent, whose path is shorter.
  induction hn : path.length using Nat.strong_induction_on generalizing path with
  | _ n ih =>
  rw [FileSystem.makeDirectories]
  split
  · exact drawing_pure _
  refine (drawing_ensureDirectory path).bind fun result => ?_
  split
  · split
    · exact drawing_pure _
    split
    · next hshorter =>
      refine (ih _ (hn ▸ hshorter) _ rfl).bind fun above => ?_
      split
      · exact drawing_pure _
      · exact drawing_ensureDirectory path
    · exact drawing_pure _
  · exact drawing_pure _

end Disk

namespace DirectorySink

open Disk

/-! ## Batches -/

/-- Writing files takes endings from the front of the store only. -/
theorem drawing_writeFiles (schedule : Schedule) (base : String) (batch : List Artifact) :
    Drawing (writeFiles fileSystem schedule base batch) := by
  intro d
  refine writeFiles_keeps (I := fun now => d.Drawn now) (fun a ha now later hnow hwrite => ?_)
    (.refl d)
  obtain ⟨_, _, -, -, -, -, rfl⟩ := of_writeFile hwrite
  exact hnow.trans (.of_eq rfl)

private theorem drawing_swapIn (staged root parked : String) :
    Drawing (swapIn fileSystem staged root parked) := by
  have hpresent : Drawing (fileSystem.isPresent root) := Drawn.refl
  refine hpresent.bind fun present => ?_
  split
  · refine (drawing_rename root parked).bind fun aside => ?_
    cases aside with
    | error fault => exact drawing_pure _
    | ok =>
      refine (drawing_rename staged root).bind fun moved => ?_
      cases moved with
      | ok => exact drawing_pure _
      | error fault => exact (drawing_rename parked root).bind fun _ => drawing_pure _
  · exact (drawing_rename staged root).bind fun _ => drawing_pure _

private theorem drawing_replace (parent staged root : String) :
    Drawing (replace fileSystem parent staged root) := by
  refine (drawing_makeTemporary parent parkingStem).bind fun made => ?_
  cases made with
  | error fault => exact drawing_pure _
  | ok parking =>
    exact (drawing_swapIn staged root _).bind fun _ =>
      (drawing_removeTree parking).bind fun _ => drawing_pure _

/-- Replacing a root by a batch only draws endings. -/
theorem drawing_writeAll (schedule : Schedule) (root : String) (batch : List Artifact) :
    Drawing (writeAll fileSystem schedule root batch) := by
  refine (drawing_makeDirectories _).bind fun made => ?_
  cases made with
  | error fault => exact drawing_pure _
  | ok =>
    refine (drawing_makeTemporary _ stagingStem).bind fun made => ?_
    cases made with
    | error fault => exact drawing_pure _
    | ok staging =>
      refine (drawing_writeFiles schedule staging batch).bind fun written => ?_
      cases written with
      | error failure => exact (drawing_removeTree staging).bind fun _ => drawing_pure _
      | ok =>
        refine (drawing_replace _ staging root).bind fun result => ?_
        cases result with
        | error failure => exact (drawing_removeTree staging).bind fun _ => drawing_pure _
        | ok => exact drawing_pure _

end DirectorySink

end ApiTypings
