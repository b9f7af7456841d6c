import ApiTypings.Proofs.Sink.Root

/-!
# The directory sink refines the sink in memory

Under a root that can be replaced there is, after any batches, what a sink in memory holds after
those of them that were written. Plain batches are always written; a batch that fails leaves
everything as it was. Nothing else changes, except that missing directories above the root are made.
-/

namespace ApiTypings

open Disk

namespace Disk

variable {d d' d'' : Disk} {root : String} {tree tree' : Place → Option DiskNode}

/-- Under the root is a tree; elsewhere nothing has changed but that directories have been made
above the root where nothing was. -/
structure Rewritten (d d' : Disk) (root : String) (tree : Place → Option DiskNode) : Prop where
  wellFormed : d'.WellFormed
  current : d'.current = d.current
  inside : ∀ q, d'.at? (d.leads root ++ q) = tree q
  outside : ∀ q, ¬d.leads root <+: q → d'.at? q = d.at? q ∨
    q ∈ d.above root ∧ d.at? q = none ∧ d'.at? q = some .directory

/-- What is under a root. -/
def under (d : Disk) (root : String) : Place → Option DiskNode := fun q => d.at? (d.leads root ++ q)

namespace Rewritten

/-- Without batches nothing is rewritten. -/
theorem refl (hd : d.WellFormed) (root : String) : d.Rewritten d root (d.under root) :=
  ⟨hd, rfl, fun _ => rfl, fun _ _ => .inl rfl⟩

/-- Rewriting twice is rewriting. -/
theorem trans (h : d.Rewritten d' root tree) (h' : d'.Rewritten d'' root tree') :
    d.Rewritten d'' root tree' where
  wellFormed := h'.wellFormed
  current := h'.current.trans h.current
  inside := by
    intro q
    rw [← h'.inside, leads_congr h.current]
  outside := by
    intro q hq
    have hlater := h'.outside q (by rwa [leads_congr h.current])
    rw [above_congr h.current] at hlater
    rcases h.outside q hq with heq | ⟨hmem, hnone, hdir⟩
    · rw [heq] at hlater
      exact hlater
    · rcases hlater with heq' | ⟨-, hnone', -⟩
      · exact .inr ⟨hmem, hnone, heq'.trans hdir⟩
      · rw [hdir] at hnone'
        cases hnone'

/-- What is under the root may then be replaced. -/
theorem replaced (h : d.Rewritten d' root tree) (h' : d'.Replaced d'' (d.leads root) tree') :
    d.Rewritten d'' root tree' where
  wellFormed := h'.wellFormed
  current := h'.current.trans h.current
  inside := h'.inside
  outside := by
    intro q hq
    rw [h'.outside q hq]
    exact h.outside q hq

private theorem under_eq (h : d.Rewritten d' root tree) : d'.under root = tree := by
  funext q
  rw [under, leads_congr h.current, h.inside]

/-- Where there was a directory outside the root, there still is one. -/
theorem directory (h : d.Rewritten d' root tree) {q : Place} (hq : ¬d.leads root <+: q)
    (hdir : d.at? q = some .directory) : d'.at? q = some .directory := by
  rcases h.outside q hq with heq | ⟨-, hnone, -⟩
  · rw [heq, hdir]
  · rw [hdir] at hnone
    cases hnone

end Rewritten

/-- Making the directories above a root leaves what is under it. -/
theorem Grown.rewritten (hgrown : d.Grown d' (d.above root)) (h : d.Replaceable root) :
    d.Rewritten d' root (d.under root) where
  wellFormed := hgrown.wellFormed
  current := hgrown.current
  inside := by
    intro q
    rw [hgrown.at?, if_neg]
    · rfl
    · rintro ⟨hmem, -⟩
      exact h.not_below _ (List.mem_cons_of_mem _ hmem) (List.prefix_append ..)
  outside := by
    intro q _
    rw [hgrown.at?]
    split
    · next hmade => exact .inr ⟨hmade.1, hmade.2, rfl⟩
    · exact .inl rfl

namespace Replaceable

variable (h : d.Replaceable root)

include h

/-- The root can be replaced again as long as it is no file. -/
theorem rewritten (hrewritten : d.Rewritten d' root tree)
    (htree : tree [] = none ∨ tree [] = some .directory) : d'.Replaceable root := by
  have hcurrent := hrewritten.current
  have horigin : d'.origin root = d.origin root := by rw [Disk.origin, Disk.origin, hcurrent]
  have hroot : d'.at? (d.leads root) = tree [] := by
    rw [← hrewritten.inside, List.append_nil]
  refine
    { wellFormed := hrewritten.wellFormed
      null := h.null
      short := h.short
      shortNames := h.shortNames
      named := h.named
      origin := ?_
      passable := ?_
      apart := by rw [leads_congr hcurrent, above_congr hcurrent, horigin]; exact h.apart }
  · rw [horigin]
    exact hrewritten.directory (h.not_below _ (List.mem_cons_self ..)) h.origin
  · intro q hq
    rw [horigin] at hq
    by_cases hself : q = d.leads root
    · rwa [hself, hroot]
    · have habove : q ∈ d.above root := by
        rw [h.components_eq, trail_append] at hq
        refine (List.mem_append.mp hq).resolve_right fun hlast => hself ?_
        rw [List.mem_singleton.mp hlast, h.isPath.leads_eq]
      rcases hrewritten.outside q (h.not_below q (List.mem_cons_of_mem _ habove)) with
        heq | ⟨-, -, hdir⟩
      · rw [heq]
        exact h.passable q hq
      · exact .inr hdir

end Replaceable

end Disk

namespace DirectorySink

variable {d d' : Disk} {s : Site} {root : String} {batch : List Artifact}
  {result : Except DiskFailure Unit} {old tree : Place → Option DiskNode}

/-- After a batch there is room for the next one. -/
theorem HasRoom.rewritten (hd : d.Replaceable root) (h : HasRoom d (d.site root) batch)
    (hdrawn : d.Drawn d') (hrewritten : d.Rewritten d' root tree) :
    HasRoom d' (d'.site root) batch := by
  rw [site_congr hrewritten.current]
  refine h.later hdrawn fun name hname hnothing => ?_
  have hbelow : ¬d.leads root <+: (d.site root).beside name := by
    rw [hd.leads_eq]
    apply Site.apart_beside
    rintro rfl
    exact hname (hd.components_eq ▸ List.mem_append_right _ (List.mem_singleton_self _))
  rcases hrewritten.outside _ hbelow with heq | ⟨hmem, -, -⟩
  · rw [heq, hnothing]
  · exact absurd hmem (hd.not_mem_above hname hnothing)

/-- A root that was no file is no file after a batch. -/
theorem Effect.passable (h : Effect old batch result tree)
    (hold : old [] = none ∨ old [] = some .directory) :
    tree [] = none ∨ tree [] = some .directory := by
  cases h with
  | written _ hdir _ => exact .inr hdir
  | failed _ _ _ => exact hold

/-- One batch for a root that can be replaced. -/
theorem writeAll_rewrites (h : d.Replaceable root) (hinside : StaysInside batch)
    (hroom : HasRoom d (d.site root) batch) (schedule : Schedule) :
    ∃ result tree d', (writeAll fileSystem schedule root batch).run d = (result, d') ∧
      Effect (d.under root) batch result tree ∧ d.Rewritten d' root tree := by
  obtain ⟨d₁, hmake, hgrown⟩ := h.makeDirectories
  have hgrow : d.Rewritten d₁ root (d.under root) := hgrown.rewritten h
  have hroom' := hroom.rewritten h ((drawing_makeDirectories _).of_run hmake) hgrow
  rw [site_congr hgrown.current] at hroom'
  have hroot := h.passable_root
  rw [← List.append_nil (d.leads root)] at hroot
  obtain ⟨result, tree, d', hrun, heffect, hreplaced⟩ := writeAll_replaces hmake (h.ready hgrown)
    rfl (by rwa [← h.leads_eq, ← List.append_nil (d.leads root), hgrow.inside]) hinside hroom'
    schedule
  rw [← h.leads_eq] at heffect hreplaced
  have hunder : (fun q => d₁.at? (d.leads root ++ q)) = d.under root := funext hgrow.inside
  rw [hunder] at heffect
  exact ⟨result, tree, d', hrun, heffect, hgrow.replaced hreplaced⟩

/-- What batches do to the tree under a root, one after the other. -/
inductive Effects : (Place → Option DiskNode) → List (List Artifact) →
    List (Except DiskFailure Unit) → (Place → Option DiskNode) → Prop
  | nil (old : Place → Option DiskNode) : Effects old [] [] old
  | cons {old tree tree' batch batches result results} (first : Effect old batch result tree)
      (rest : Effects tree batches results tree') :
      Effects old (batch :: batches) (result :: results) tree'

/-- The result of a batch: it was written, or writing one of its files failed, which does not happen
to a plain batch. -/
def Outcome (batch : List Artifact) (result : Except DiskFailure Unit) : Prop :=
  result = .ok () ∨ ¬Plain batch ∧ ∃ name fault, result = .error ⟨.write name, fault⟩

/-- The batches that were written, of some with their results. -/
def written (batches : List (List Artifact)) (results : List (Except DiskFailure Unit)) :
    List (List Artifact) :=
  ((batches.zip results).filter (·.2.isOk)).map Prod.fst

/-- The tree that a sink in memory stands for after some batches, or the old tree if there are
none. -/
def treeAfter (old : Place → Option DiskNode) : List (List Artifact) → Place → Option DiskNode
  | [] => old
  | batches => (batches.foldl MemorySink.writeAll {}).tree

/-- A sink in memory forgets what was before a batch. -/
theorem treeAfter_cons (old : Place → Option DiskNode) (batch : List Artifact)
    (batches : List (List Artifact)) (sink : MemorySink) :
    treeAfter old (batch :: batches) = treeAfter (sink.writeAll batch).tree batches := by
  cases batches <;> rfl

namespace Effects

variable {batches : List (List Artifact)} {results : List (Except DiskFailure Unit)}

/-- Every batch has an outcome. -/
theorem outcomes (h : Effects old batches results tree) : List.Forall₂ Outcome batches results := by
  induction h with
  | nil => exact .nil
  | cons first _ ih =>
    refine .cons ?_ ih
    cases first with
    | written => exact .inl rfl
    | failed name fault hplain => exact .inr ⟨hplain, name, fault, rfl⟩

/-- If the batches that were written are plain, they leave what a sink in memory holds. -/
theorem tree_eq (h : Effects old batches results tree)
    (hplain : ∀ batch ∈ written batches results, Plain batch) :
    tree = treeAfter old (written batches results) := by
  induction h with
  | nil => rfl
  | @cons _ _ _ batch batches _ results first _ ih =>
    cases first with
    | written _ _ heq =>
      have hwritten : written (batch :: batches) (.ok () :: results) =
          batch :: written batches results := rfl
      rw [hwritten, List.forall_mem_cons] at hplain
      rw [hwritten, treeAfter_cons _ _ _ {}, ← heq hplain.1 {}]
      exact ih hplain.2
    | failed => exact ih hplain

end Effects

/-- Writes batches under a root one after the other, each under a schedule of its own. -/
def writeBatches (root : String) (batches : List (Schedule × List Artifact)) :
    StateM Disk (List (Except DiskFailure Unit)) :=
  batches.mapM fun batch => writeAll fileSystem batch.1 root batch.2

/-- Any batches for a root that can be replaced, one after the other. -/
theorem writeBatches_rewrites {batches : List (Schedule × List Artifact)} (h : d.Replaceable root)
    (hbatches : ∀ batch ∈ batches.map Prod.snd,
      StaysInside batch ∧ HasRoom d (d.site root) batch) :
    ∃ results tree d', (writeBatches root batches).run d = (results, d') ∧
      Effects (d.under root) (batches.map Prod.snd) results tree ∧ d.Rewritten d' root tree := by
  induction batches generalizing d with
  | nil => exact ⟨[], _, d, rfl, .nil _, .refl h.wellFormed root⟩
  | cons batch batches ih =>
    rw [List.map_cons, List.forall_mem_cons] at hbatches
    obtain ⟨⟨hinside, hroom⟩, hbatches⟩ := hbatches
    obtain ⟨result, tree, d₁, hrun, heffect, hrewritten⟩ :=
      writeAll_rewrites h hinside hroom batch.1
    have hdrawn := (drawing_writeAll _ _ _).of_run hrun
    have hroot := h.passable_root
    rw [← List.append_nil (d.leads root)] at hroot
    have h₁ := h.rewritten hrewritten (heffect.passable hroot)
    obtain ⟨results, tree', d', hruns, heffects, hrewritten'⟩ := ih h₁ fun b hb =>
      ⟨(hbatches b hb).1, (hbatches b hb).2.rewritten h hdrawn hrewritten⟩
    rw [hrewritten.under_eq] at heffects
    refine ⟨result :: results, tree', d', ?_, .cons heffect heffects, hrewritten.trans hrewritten'⟩
    rw [writeBatches, List.mapM_cons, run_bind_of_run hrun]
    exact run_bind_of_run hruns

/-- The directory sink refines the sink in memory: under a root that can be replaced there is, after
any batches whose names stay inside, what a sink in memory holds after those that were written, and
what was there before if there were none; plain batches are written. Elsewhere nothing has changed,
except that missing directories above the root have been made. So it is under any schedules. -/
theorem mapM_writeAll_refines {batches : List (Schedule × List Artifact)} (h : d.Replaceable root)
    (hbatches : ∀ batch ∈ batches.map Prod.snd,
      StaysInside batch ∧ HasRoom d (d.site root) batch) :
    ∃ results d', (writeBatches root batches).run d = (results, d') ∧
      List.Forall₂ Outcome (batches.map Prod.snd) results ∧
      ((∀ batch ∈ written (batches.map Prod.snd) results, Plain batch) →
        d'.under root = treeAfter (d.under root) (written (batches.map Prod.snd) results)) ∧
      ∀ q, ¬d.leads root <+: q → d'.at? q = d.at? q ∨
        q ∈ d.above root ∧ d.at? q = none ∧ d'.at? q = some .directory := by
  obtain ⟨results, tree, d', hrun, heffects, hrewritten⟩ := writeBatches_rewrites h hbatches
  refine ⟨results, d', hrun, heffects.outcomes, fun hplain => ?_, hrewritten.outside⟩
  rw [hrewritten.under_eq, heffects.tree_eq hplain]

end DirectorySink

/-! ## A disk with an earlier output -/

namespace Disk

private theorem wellFormed_empty : ({} : Disk).WellFormed := by
  have hnone : ∀ p name, ({} : Disk).at? (p ++ [name]) = none :=
    fun p name => (at?_eq_none_iff (by simp)).mpr fun e he => absurd he List.not_mem_nil
  constructor <;> simp [hnone]

/-- A disk with the output of an earlier run. -/
def withOutput : Disk :=
  (({} : Disk).put ["out"] .directory).put ["out", "Old.ts"] (.file "old".toUTF8)

/-- The disk with an output directory is well-formed. -/
theorem wellFormed_withOutput : withOutput.WellFormed := by
  have hout : IsName "out" := by constructor <;> decide
  have hold : IsName "Old.ts" := by constructor <;> decide
  have hroot : ({} : Disk).at? [] = some .directory := rfl
  have hfirst : (({} : Disk).put ["out"] .directory).WellFormed :=
    wellFormed_empty.put hroot hout (.inl rfl)
  have hdir : (({} : Disk).put ["out"] .directory).at? ["out"] = some .directory := rfl
  refine hfirst.put hdir hold (.inr ?_)
  have hnone : (({} : Disk).put ["out"] .directory).at? ["out", "Old.ts"] = none := rfl
  change (({} : Disk).put ["out"] .directory).at? ["out", "Old.ts"] ≠ _
  rw [hnone]
  simp

/-- Only the output directory is on the disk. -/
theorem at?_withOutput {name : String} (hname : name ≠ "out") : withOutput.at? [name] = none := by
  rw [withOutput, at?_put (by simp), if_neg (by simp), at?_put (by simp), if_neg (by simp [hname])]
  rfl

private theorem replaceable_withOutput : withOutput.Replaceable "out" where
  wellFormed := wellFormed_withOutput
  null := by decide
  short := by decide
  shortNames := by decide
  named := ⟨"out", rfl, by decide⟩
  origin := rfl
  passable := by
    intro q hq
    obtain rfl := List.mem_singleton.mp hq
    exact .inr rfl
  apart := by decide

end Disk

namespace DirectorySink

/-- Two plain batches, with one between them whose files are written from the last to the first,
and that fails. -/
def threeBatches : List (Schedule × List Artifact) :=
  [(.inOrder, [⟨"A.ts", "1"⟩]), (.backwards, [⟨"B.ts", "2"⟩, ⟨"missing/B.ts", "2"⟩]),
    (.inOrder, [⟨"C.ts", "3"⟩])]

private theorem of_mem_threeBatches : ∀ batch ∈ threeBatches.map Prod.snd,
    StaysInside batch ∧ HasRoom withOutput (withOutput.site "out") batch := by
  intro batch hbatch
  have hinside : ∀ batch ∈ threeBatches.map Prod.snd, ∀ a ∈ batch,
      Path.isAbsolute a.filename = false ∧ ".." ∉ Path.components a.filename := by decide +kernel
  have hshort : ∀ batch ∈ threeBatches.map Prod.snd, ∀ a ∈ batch,
      (withOutput.site "out").base.utf8ByteSize + 30 + a.filename.utf8ByteSize < maxPath := by
    decide +kernel
  have hcomponents : Path.components "out" = ["out"] := by decide +kernel
  refine ⟨fun a ha => ⟨(hinside batch hbatch a ha).1, (hinside batch hbatch a ha).2⟩,
    .of_nothing (fun stem _ number => ?_) (fun stem _ number => ?_) (by decide +kernel)
      (hshort batch hbatch)⟩
  · change _ ∉ Path.components "out"
    rw [hcomponents, List.mem_singleton]
    exact Path.temporaryName_ne_of_lt (by decide)
  · exact at?_withOutput (Path.temporaryName_ne_of_lt (by decide))

/-- One file with a name without a special character is a plain batch. -/
theorem plain_singleton {name text : String} (h : IsName name) : Plain [⟨name, text⟩] where
  isName := List.forall_mem_singleton.mpr h
  distinct := List.nodup_singleton _

/-- Of three batches the two plain ones are written, and the root holds what they hold. -/
theorem mapM_writeAll_withOutput : withOutput.Replaceable "out" ∧
    (∀ batch ∈ threeBatches.map Prod.snd,
      StaysInside batch ∧ HasRoom withOutput (withOutput.site "out") batch) ∧
    ∃ results d', (writeBatches "out" threeBatches).run withOutput = (results, d') ∧
      written (threeBatches.map Prod.snd) results = [[⟨"A.ts", "1"⟩], [⟨"C.ts", "3"⟩]] ∧
      d'.under "out" =
        ((({} : MemorySink).writeAll [⟨"A.ts", "1"⟩]).writeAll [⟨"C.ts", "3"⟩]).tree := by
  obtain ⟨results, d', hrun, -, hunder, -⟩ :=
    mapM_writeAll_refines replaceable_withOutput of_mem_threeBatches
  have hresults : ((writeBatches "out" threeBatches).run withOutput).1 =
      [.ok (), .error ⟨.write "missing/B.ts", .notFound⟩, .ok ()] := by decide +kernel
  rw [hrun] at hresults
  obtain rfl : results = _ := hresults
  refine ⟨replaceable_withOutput, of_mem_threeBatches, _, d', hrun, rfl, hunder ?_⟩
  have ha : IsName "A.ts" := by constructor <;> decide
  have hc : IsName "C.ts" := by constructor <;> decide
  exact List.forall_mem_cons.mpr
    ⟨plain_singleton ha, List.forall_mem_singleton.mpr (plain_singleton hc)⟩

/-- Roots that are absent but cannot be replaced, since their path ends in a dot, leads through the
root itself or meets a file; and a failed batch whose names lead out of the staging directory. -/
theorem writeAll_not_replaceable : Plain [⟨"A.ts", "1"⟩] ∧
    ((({} : Disk).isPresent "out/." = false ∧
        ((writeAll fileSystem .inOrder "out/." [⟨"A.ts", "1"⟩]).run {}).1 =
          .error ⟨.moveInto "/./.shapegen-000000" "out/.", .notFound⟩) ∧
      (({} : Disk).isPresent "out/../out" = false ∧
        ((writeAll fileSystem .inOrder "out/../out" [⟨"A.ts", "1"⟩]).run {}).1 =
          .error ⟨.moveInto "/out/../.shapegen-000000" "out/../out", .notFound⟩ ∧
        ((writeAll fileSystem .inOrder "out/../out" [⟨"A.ts", "1"⟩]).run {}).2.isDirectory
          ".shapegen-000000" = true) ∧
      (withOutput.isPresent "out/Old.ts/out" = false ∧
        ((writeAll fileSystem .inOrder "out/Old.ts/out" [⟨"A.ts", "1"⟩]).run withOutput).1 =
          .error ⟨.create "out/Old.ts", .alreadyExists⟩)) ∧
    ((writeAll fileSystem .inOrder "out"
        [⟨"../out/A.ts", "1"⟩, ⟨"missing/B.ts", "2"⟩]).run withOutput).1 =
          .error ⟨.write "missing/B.ts", .notFound⟩ ∧
      withOutput.isPresent "out/A.ts" = false ∧
      ((writeAll fileSystem .inOrder "out"
        [⟨"../out/A.ts", "1"⟩, ⟨"missing/B.ts", "2"⟩]).run withOutput).2.isPresent "out/A.ts" =
          true := by
  have ha : IsName "A.ts" := by constructor <;> decide
  exact ⟨plain_singleton ha, by decide +kernel⟩

end DirectorySink

end ApiTypings
