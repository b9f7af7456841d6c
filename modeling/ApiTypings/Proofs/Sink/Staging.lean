import ApiTypings.Proofs.Disk.Base
import ApiTypings.Proofs.Generation.Output
import ApiTypings.Proofs.Schedule
import ApiTypings.Sink.Directory

/-!
# Staging a batch of files

The files of a batch are written into a directory, in any order. Whatever their names are, as long
as these stay inside, only what is below the directory changes, and no directory is lost. If the
names are plain and distinct, all files are written, and an empty directory then holds what a sink
in memory holds after the batch.
-/

namespace ApiTypings

/-- A batch of plain file names without repetitions. -/
structure Plain (batch : List Artifact) : Prop where
  isName : ∀ a ∈ batch, Disk.IsName a.filename
  distinct : (batch.map Artifact.filename).Nodup

/-- A batch of file names that stay inside the directory they are written to. -/
def StaysInside (batch : List Artifact) : Prop := ∀ a ∈ batch, Disk.StaysInside a.filename

/-- The names of a plain batch stay inside. -/
theorem Plain.staysInside {batch : List Artifact} (h : Plain batch) : StaysInside batch :=
  fun a ha => (h.isName a ha).staysInside

/-- The order of a batch does not matter. -/
theorem Plain.perm {batch batch' : List Artifact} (h : Plain batch) (hperm : batch'.Perm batch) :
    Plain batch' where
  isName := fun a ha => h.isName a (hperm.subset ha)
  distinct := (hperm.map Artifact.filename).nodup_iff.mpr h.distinct

/-- What a sink in memory stands for on a disk: a directory with its files. -/
def MemorySink.tree (sink : MemorySink) : Place → Option DiskNode
  | [] => some .directory
  | [name] => (sink.get? name).map fun text => .file text.toUTF8
  | _ => none

namespace Disk

variable {d d' : Disk}

private theorem run_writeFile_ok {path : String} {content : ByteArray}
    (h : d.writeFile path content = .ok d') :
    (fileSystem.writeFile path content).run d = (.ok (), d') := by
  simp only [fileSystem, attempt, StateT.run, h]

private theorem run_writeFile_error {path : String} {content : ByteArray} {fault : DiskFault}
    (h : d.writeFile path content = .error fault) :
    (fileSystem.writeFile path content).run d = (.error fault, d) := by
  simp only [fileSystem, attempt, StateT.run, h]

/-- `d'` is `d` with other things below a directory, where all directories have stayed. -/
structure Staged (d d' : Disk) (p : Place) : Prop where
  wellFormed : d'.WellFormed
  current : d'.current = d.current
  directory : ∀ q, d.at? q = some .directory → d'.at? q = some .directory
  elsewhere : ∀ q, (∀ rest ≠ [], q ≠ p ++ rest) → d'.at? q = d.at? q

namespace Staged

variable {d'' : Disk} {p : Place}

/-- A directory in which nothing happens is staged. -/
theorem refl (hd : d.WellFormed) (p : Place) : d.Staged d p :=
  ⟨hd, rfl, fun _ h => h, fun _ _ => rfl⟩

/-- What is staged in two turns is staged. -/
theorem trans (h : d.Staged d' p) (h' : d'.Staged d'' p) : d.Staged d'' p where
  wellFormed := h'.wellFormed
  current := h'.current.trans h.current
  directory := fun q hq => h'.directory q (h.directory q hq)
  elsewhere := fun q hq => (h'.elsewhere q hq).trans (h.elsewhere q hq)

/-- A file is put below the directory, where there was no directory. -/
theorem put (hd : d.WellFormed) {q : Place} {name : String} (hq : d.at? (p ++ q) = some .directory)
    (hname : IsName name) (hat : d.at? (p ++ q ++ [name]) ≠ some .directory)
    (content : ByteArray) : d.Staged (d.put (p ++ q ++ [name]) (.file content)) p where
  wellFormed := hd.put hq hname (.inr hat)
  current := rfl
  directory := by
    intro r hr
    rw [at?_put (by simp), if_neg, hr]
    rintro rfl
    exact hat hr
  elsewhere := by
    intro r hr
    rw [at?_put (by simp), if_neg]
    rw [List.append_assoc]
    exact hr (q ++ [name]) (by simp)

/-- A file is put into the directory itself. -/
theorem put_file (hd : d.WellFormed) {name : String} (hp : d.at? p = some .directory)
    (hname : IsName name) (hat : d.at? (p ++ [name]) ≠ some .directory) (content : ByteArray) :
    d.Staged (d.put (p ++ [name]) (.file content)) p := by
  rw [← List.append_nil p] at hp hat
  simpa only [List.append_nil] using put hd hp hname hat content

/-- Bases stay bases while files are staged. -/
theorem base (h : d.Staged d' p) {base : String} {q : Place} (hb : d.Base base q) :
    d'.Base base q :=
  hb.of_open fun r hr => h.directory r (hb.opened r hr)

/-- The endings in store do not matter. -/
theorem of_withEndings {endings : Nat → Ending} (h : (d.withEndings endings).Staged d' p) :
    d.Staged d' p :=
  ⟨h.wellFormed, h.current, h.directory, h.elsewhere⟩

end Staged

end Disk

namespace DirectorySink

variable {d d' : Disk} {base : String} {p : Place} {a : Artifact} {batch : List Artifact}
  {schedule : Schedule} {failed : Bool} {failures : List DiskFailure}
  {result : Except DiskFailure Unit}

/-- One file of a batch is written into a directory. -/
def writeIn (base : String) (d : Disk) (a : Artifact) : Except DiskFault Disk :=
  d.writeFile (Path.join base a.filename) a.content.toUTF8

/-! ## One file after the other -/

/-- After a failure some files are passed over. -/
theorem run_writeEach_passed (hfailed : (failed && !schedule.goesOn batch.length) = true) :
    (writeEach Disk.fileSystem schedule base failed (a :: batch)).run d =
      (writeEach Disk.fileSystem schedule base failed batch).run d := by
  rw [writeEach, if_pos hfailed]

private theorem run_writeEach_ok (hfailed : (failed && !schedule.goesOn batch.length) = false)
    (h : writeIn base d a = .ok d') :
    (writeEach Disk.fileSystem schedule base failed (a :: batch)).run d =
      (writeEach Disk.fileSystem schedule base failed batch).run d' := by
  rw [writeEach, hfailed, if_neg Bool.false_ne_true,
    Disk.run_bind_of_run (Disk.run_writeFile_ok h)]

private theorem run_writeEach_error {fault : DiskFault}
    (hfailed : (failed && !schedule.goesOn batch.length) = false)
    (h : writeIn base d a = .error fault)
    (hrest : (writeEach Disk.fileSystem schedule base true batch).run d = (failures, d')) :
    (writeEach Disk.fileSystem schedule base failed (a :: batch)).run d =
      (⟨.write a.filename, fault⟩ :: failures, d') := by
  rw [writeEach, hfailed, if_neg Bool.false_ne_true,
    Disk.run_bind_of_run (Disk.run_writeFile_error h)]
  dsimp only
  rw [Disk.run_bind_of_run hrest]
  rfl

/-- What each write keeps is kept, whichever files are written. -/
theorem writeEach_keeps {I : Disk → Prop}
    (hwrite : ∀ a ∈ batch, ∀ d d', I d → writeIn base d a = .ok d' → I d') (hd : I d) :
    I ((writeEach Disk.fileSystem schedule base failed batch).run d).2 := by
  induction batch generalizing d failed with
  | nil => exact hd
  | cons a batch ih =>
    rw [List.forall_mem_cons] at hwrite
    cases hfailed : failed && !schedule.goesOn batch.length with
    | true =>
      rw [run_writeEach_passed hfailed]
      exact ih hwrite.2 hd
    | false =>
      cases hfile : writeIn base d a with
      | ok d₁ =>
        rw [run_writeEach_ok hfailed hfile]
        exact ih hwrite.2 (hwrite.1 d d₁ hd hfile)
      | error fault =>
        rw [run_writeEach_error hfailed hfile rfl]
        exact ih hwrite.2 hd

/-- Only files of the batch fail. -/
theorem of_mem_writeEach {failure : DiskFailure}
    (h : failure ∈ ((writeEach Disk.fileSystem schedule base failed batch).run d).1) :
    ∃ a ∈ batch, ∃ fault, failure = ⟨.write a.filename, fault⟩ := by
  induction batch generalizing d failed with
  | nil => exact absurd h List.not_mem_nil
  | cons a batch ih =>
    have hlater : ∀ {d failed},
        failure ∈ ((writeEach Disk.fileSystem schedule base failed batch).run d).1 →
          ∃ b ∈ a :: batch, ∃ fault, failure = ⟨.write b.filename, fault⟩ := by
      intro d failed h
      obtain ⟨b, hb, hfailure⟩ := ih h
      exact ⟨b, List.mem_cons_of_mem _ hb, hfailure⟩
    cases hfailed : failed && !schedule.goesOn batch.length with
    | true =>
      rw [run_writeEach_passed hfailed] at h
      exact hlater h
    | false =>
      cases hfile : writeIn base d a with
      | ok d₁ =>
        rw [run_writeEach_ok hfailed hfile] at h
        exact hlater h
      | error fault =>
        rw [run_writeEach_error hfailed hfile rfl] at h
        rcases List.mem_cons.mp h with heq | h
        · exact ⟨a, List.mem_cons_self .., fault, heq⟩
        · exact hlater h

/-- As long as no file has failed, none fails when all are written. -/
theorem run_writeEach_eq_nil_iff (schedule : Schedule) :
    (writeEach Disk.fileSystem schedule base false batch).run d = ([], d') ↔
      batch.foldlM (writeIn base) d = .ok d' := by
  induction batch generalizing d with
  | nil =>
    change ([], d) = ([], d') ↔ Except.ok d = Except.ok d'
    rw [Prod.mk.injEq, Except.ok.injEq, and_iff_right rfl]
  | cons a batch ih =>
    rw [List.foldlM_cons]
    cases hfile : writeIn base d a with
    | ok d₁ =>
      rw [run_writeEach_ok rfl hfile, ih]
      rfl
    | error fault =>
      rw [run_writeEach_error rfl hfile rfl]
      exact ⟨nofun, nofun⟩

/-! ## Side by side -/

/-- Writing files reports what is told of the failures, in the order in which they are written. -/
theorem run_writeFiles (schedule : Schedule) (base : String) (batch : List Artifact) (d : Disk) :
    (writeFiles Disk.fileSystem schedule base batch).run d =
      (schedule.tell
        ((writeEach Disk.fileSystem schedule base false (schedule.arrange batch)).run d).1,
        ((writeEach Disk.fileSystem schedule base false (schedule.arrange batch)).run d).2) :=
  rfl

/-- A batch is written when each of its files is, in the order of the schedule. -/
theorem run_writeFiles_eq_ok_iff :
    (writeFiles Disk.fileSystem schedule base batch).run d = (.ok (), d') ↔
      (schedule.arrange batch).foldlM (writeIn base) d = .ok d' := by
  rw [← run_writeEach_eq_nil_iff schedule, run_writeFiles, Prod.mk.injEq,
    Schedule.tell_eq_ok_iff]
  exact ⟨fun h => Prod.ext h.1 h.2, fun h => ⟨congrArg Prod.fst h, congrArg Prod.snd h⟩⟩

/-- What each write of a file keeps is kept, under any schedule. -/
theorem writeFiles_keeps {I : Disk → Prop}
    (hwrite : ∀ a ∈ batch, ∀ d d', I d → writeIn base d a = .ok d' → I d') (hd : I d) :
    I ((writeFiles Disk.fileSystem schedule base batch).run d).2 := by
  rw [run_writeFiles]
  exact writeEach_keeps (fun a ha => hwrite a ((schedule.arrange_perm batch).subset ha)) hd

/-- A batch is written, or one of its files fails. -/
theorem writeFiles_result (schedule : Schedule) (base : String) (batch : List Artifact) (d : Disk) :
    ((writeFiles Disk.fileSystem schedule base batch).run d).1 = .ok () ∨
      ∃ a ∈ batch, ∃ fault, ((writeFiles Disk.fileSystem schedule base batch).run d).1 =
        .error ⟨.write a.filename, fault⟩ := by
  rw [run_writeFiles]
  cases htell : schedule.tell
      ((writeEach Disk.fileSystem schedule base false (schedule.arrange batch)).run d).1 with
  | ok => exact .inl rfl
  | error failure =>
    obtain ⟨a, ha, fault, rfl⟩ := of_mem_writeEach (Schedule.mem_of_tell htell)
    exact .inr ⟨a, (schedule.arrange_perm batch).subset ha, fault, rfl⟩

/-- Whether all files of a batch are written or not, things only change below the directory. -/
theorem writeFiles_staged (hb : d.Base base p) (hd : d.WellFormed) (hinside : StaysInside batch)
    (schedule : Schedule) :
    d.Staged ((writeFiles Disk.fileSystem schedule base batch).run d).2 p := by
  refine writeFiles_keeps (I := fun now => d.Staged now p) (fun a ha now later hnow hwrite => ?_)
    (.refl hd p)
  have hbnow := hnow.base hb
  obtain ⟨q, name, rfl, hq, hname, hat⟩ :=
    hbnow.of_writeFile hnow.wellFormed (hinside a ha) hwrite
  exact hnow.trans (.put hnow.wellFormed hq hname hat a.content.toUTF8)

/-- All files of a plain batch are written, each with its text. -/
theorem foldlM_writeIn_plain (hb : d.Base base p) (hd : d.WellFormed) (hplain : Plain batch)
    (hroom : ∀ a ∈ batch, (Path.join base a.filename).utf8ByteSize < Disk.maxPath)
    (hat : ∀ a ∈ batch, d.at? (p ++ [a.filename]) ≠ some .directory) :
    ∃ d', batch.foldlM (writeIn base) d = .ok d' ∧
      (∀ a ∈ batch, d'.at? (p ++ [a.filename]) = some (.file a.content.toUTF8)) ∧
      ∀ q, (∀ a ∈ batch, q ≠ p ++ [a.filename]) → d'.at? q = d.at? q := by
  induction batch generalizing d with
  | nil => exact ⟨d, rfl, fun _ ha => absurd ha List.not_mem_nil, fun _ _ => rfl⟩
  | cons a batch ih =>
    obtain ⟨hnames, hdistinct⟩ := hplain
    rw [List.map_cons, List.nodup_cons] at hdistinct
    rw [List.forall_mem_cons] at hnames hroom hat
    have hpath := hb.isPath_join hnames.1 hroom.1
    have hleads := hb.leads_join hnames.1 d
    have hwrite : writeIn base d a = _ := Disk.writeFile_eq hpath hd (hb.open_join _)
      (hb.getLast?_join hnames.1) hnames.1 (hleads ▸ hat.1) a.content.toUTF8
    rw [hleads] at hwrite
    have hput := Disk.Staged.put_file hd hb.directory hnames.1 hat.1 a.content.toUTF8
    -- The files behind the first have other names, so the first stays as it is written.
    have hother : ∀ q, q ≠ p ++ [a.filename] →
        (d.put (p ++ [a.filename]) (.file a.content.toUTF8)).at? q = d.at? q := by
      intro q hq
      rw [Disk.at?_put (by simp), if_neg hq]
    have hne : ∀ b ∈ batch, p ++ [b.filename] ≠ p ++ [a.filename] := by
      intro b hbatch heq
      have hname := (List.append_singleton_inj.mp heq).2
      exact hdistinct.1 (hname ▸ List.mem_map_of_mem hbatch)
    obtain ⟨d', hrun, hfiles, hrest⟩ := ih (hput.base hb) hput.wellFormed ⟨hnames.2, hdistinct.2⟩
      hroom.2 fun b hbatch => by rw [hother _ (hne b hbatch)]; exact hat.2 b hbatch
    refine ⟨d', ?_, ?_, ?_⟩
    · rw [List.foldlM_cons, hwrite]
      exact hrun
    · rw [List.forall_mem_cons]
      refine ⟨?_, hfiles⟩
      rw [hrest _ fun b hbatch => (hne b hbatch).symm, Disk.at?_put (by simp), if_pos rfl]
    · intro q hq
      rw [List.forall_mem_cons] at hq
      rw [hrest q hq.2, hother q hq.1]

/-- A plain batch turns an empty directory into what a sink in memory holds after it, under any
schedule. -/
theorem writeFiles_tree (hb : d.Base base p) (hd : d.WellFormed) (hplain : Plain batch)
    (hroom : ∀ a ∈ batch, (Path.join base a.filename).utf8ByteSize < Disk.maxPath)
    (hempty : ∀ q ≠ [], d.at? (p ++ q) = none) (schedule : Schedule) (sink : MemorySink) :
    ∃ d', (writeFiles Disk.fileSystem schedule base batch).run d = (.ok (), d') ∧
      ∀ q, d'.at? (p ++ q) = (sink.writeAll batch).tree q := by
  have hperm := schedule.arrange_perm batch
  have hat : ∀ a ∈ schedule.arrange batch, d.at? (p ++ [a.filename]) ≠ some .directory := by
    intro a _
    rw [hempty _ (List.cons_ne_nil _ _)]
    simp
  obtain ⟨d', hrun, hfiles, hrest⟩ := foldlM_writeIn_plain hb hd (hplain.perm hperm)
    (fun a ha => hroom a (hperm.subset ha)) hat
  have hbatch := MemorySink.files_writeAll hplain.distinct sink
  refine ⟨d', run_writeFiles_eq_ok_iff.mpr hrun, fun q => ?_⟩
  have hnone : ∀ {q}, (∀ a ∈ batch, q ≠ p ++ [a.filename]) → d'.at? q = d.at? q :=
    fun hq => hrest _ fun a ha => hq a (hperm.subset ha)
  cases q with
  | nil =>
    rw [List.append_nil, hnone fun a _ heq => absurd heq (by simp), hb.directory]
    rfl
  | cons name rest =>
    cases rest with
    | nil =>
      rw [MemorySink.tree, MemorySink.get?, hbatch]
      cases hfind : batch.find? (·.filename = name) with
      | none =>
        have hother := List.find?_eq_none.mp hfind
        rw [hnone, hempty _ (List.cons_ne_nil _ _)]
        · rfl
        · intro a ha heq
          exact hother a ha (decide_eq_true (List.append_singleton_inj.mp heq).2.symm)
      | some a =>
        have hname : a.filename = name := by simpa using List.find?_some hfind
        rw [← hname, hfiles a (hperm.symm.subset (List.mem_of_find?_eq_some hfind))]
        rfl
    | cons next rest =>
      rw [hnone, hempty _ (List.cons_ne_nil _ _)]
      · rfl
      · intro a _ heq
        rw [List.append_cancel_left_eq] at heq
        cases heq

end DirectorySink

end ApiTypings
