import ApiTypings.Proofs.TypeScript.Identifier

/-!
# The first clash of file names

The contract and the types claim their files one after the other. The check of file names passes
when no two claims are for one file. Otherwise it stops at the first claim of a file that is taken,
and reports the file, the type that claims it and the owner to whom it belongs. That owner is the
only one, since up to there every claim was for a file of its own.
-/

namespace ApiTypings

/-- The file that an owner has. -/
def FileOwner.filename : FileOwner → String
  | contract => contractFilename
  | type id => id.filename

/-- All who claim a file, in order: the contract, then the types. -/
def claimants (ids : List Identity) : List FileOwner := .contract :: ids.map .type

/-- The owners at two positions, the second of which is later, claim one file. -/
def Clash (owners : List FileOwner) (i j : Nat) : Prop :=
  i < j ∧ ∃ a b, owners[i]? = some a ∧ owners[j]? = some b ∧ a.filename = b.filename

/-- The first owner whose file is taken stands at `j`, and the one to whom it belongs at `i`. -/
structure FirstClash (owners : List FileOwner) (i j : Nat) : Prop where
  clash : Clash owners i j
  earliest : ∀ i' j', Clash owners i' j' → j ≤ j'
  only : ∀ i', Clash owners i' j → i' = i

/-- A list of owners has at most one first clash. -/
theorem FirstClash.unique {owners : List FileOwner} {i j i' j' : Nat}
    (h : FirstClash owners i j) (h' : FirstClash owners i' j') : i = i' ∧ j = j' := by
  obtain rfl : j = j' :=
    Nat.le_antisymm (h.earliest _ _ h'.clash) (h'.earliest _ _ h.clash)
  exact ⟨h'.only i h.clash, rfl⟩

/-- An owner whose file belongs to one of those in front of it is the first to clash when those do
not clash with each other. -/
theorem firstClash_of_split {front : List FileOwner} {first second : FileOwner} {i : Nat}
    (hapart : ∀ i j, ¬ Clash front i j) (hi : front[i]? = some first)
    (hfile : first.filename = second.filename) (rest : List FileOwner) :
    FirstClash (front ++ second :: rest) i front.length := by
  obtain ⟨hlt, -⟩ := List.getElem?_eq_some_iff.mp hi
  have hfront : ∀ k < front.length, (front ++ second :: rest)[k]? = front[k]? :=
    fun k hk => List.getElem?_append_left hk
  have hsecond : (front ++ second :: rest)[front.length]? = some second := by
    rw [List.getElem?_append_right (Nat.le_refl _), Nat.sub_self]
    rfl
  refine ⟨⟨hlt, _, _, (hfront i hlt).trans hi, hsecond, hfile⟩, ?_, ?_⟩
  · -- A clash before that position would be one of the owners in front.
    rintro i' j' ⟨hij, a, b, ha, hb, heq⟩
    refine Nat.le_of_not_lt fun hj => ?_
    rw [hfront _ (Nat.lt_trans hij hj)] at ha
    rw [hfront _ hj] at hb
    exact hapart i' j' ⟨hij, a, b, ha, hb, heq⟩
  · -- Two owners of the file would clash with each other.
    rintro i' ⟨hi', a, b, ha, hb, heq⟩
    rw [hfront _ hi'] at ha
    rw [hsecond] at hb
    cases hb
    have hsame : a.filename = first.filename := heq.trans hfile.symm
    rcases Nat.lt_trichotomy i' i with hlt' | heq' | hgt
    · exact absurd ⟨hlt', a, first, ha, hi, hsame⟩ (hapart i' i)
    · exact heq'
    · exact absurd ⟨hgt, first, a, hi, ha, hsame.symm⟩ (hapart i i')

private theorem claimants_append (before after : List Identity) :
    claimants (before ++ after) = claimants before ++ after.map .type := by
  rw [claimants, List.map_append]
  rfl

/-- The check passes when no two owners have one file. -/
theorem checkFilenames_ok_iff_not_clash {ids : List Identity} :
    checkFilenames ids = .ok () ↔ ∀ i j, ¬ Clash (claimants ids) i j := by
  have hfiles : (claimants ids).map FileOwner.filename =
      contractFilename :: ids.map Identity.filename := by
    rw [claimants, List.map_cons, List.map_map]
    rfl
  have hnodup : checkFilenames ids = .ok () ↔
      ((claimants ids).map FileOwner.filename).Nodup := by
    rw [checkFilenames_ok_iff, hfiles, List.nodup_cons, List.mem_map]
    simp only [not_exists, not_and]
  rw [hnodup, List.Nodup, List.pairwise_map, List.pairwise_iff_getElem]
  constructor
  · rintro h i j ⟨hlt, a, b, ha, hb, heq⟩
    obtain ⟨hi, rfl⟩ := List.getElem?_eq_some_iff.mp ha
    obtain ⟨hj, rfl⟩ := List.getElem?_eq_some_iff.mp hb
    exact h i j hi hj hlt heq
  · intro h i j hi hj hlt heq
    exact h i j ⟨hlt, _, _, List.getElem?_eq_getElem hi, List.getElem?_eq_getElem hj, heq⟩

/-- Claiming fails at an identity in front of which all claims succeed, and whose file belongs to
one of the owners so far. -/
theorem of_claimFilenames_error {owners : List FileOwner} {ids : List Identity} {c : Collision}
    (h : claimFilenames (owners.map fun o => (o.filename, o)) ids = .error c) :
    ∃ before after, ids = before ++ c.second :: after ∧
      claimFilenames (owners.map fun o => (o.filename, o)) before = .ok () ∧
      c.first ∈ owners ++ before.map .type ∧
      c.first.filename = c.filename ∧ c.filename = c.second.filename := by
  induction ids generalizing owners with
  | nil => cases h
  | cons id ids ih =>
    rw [claimFilenames] at h
    cases hl : (owners.map fun o => (o.filename, o)).lookup id.filename with
    | some first =>
      rw [hl] at h
      cases h
      obtain ⟨_, _, hsplit, -⟩ := List.lookup_eq_some_iff.mp hl
      have hmem : (id.filename, first) ∈ owners.map fun o => (o.filename, o) := by
        rw [hsplit]
        simp
      obtain ⟨o, ho, heq⟩ := List.mem_map.mp hmem
      obtain ⟨hfile, rfl⟩ := Prod.mk.inj heq
      exact ⟨[], ids, rfl, rfl, List.mem_append_left _ ho, hfile, rfl⟩
    | none =>
      have hnext : (owners.map fun o => (o.filename, o)) ++ [(id.filename, .type id)] =
          (owners ++ [FileOwner.type id]).map fun o => (o.filename, o) := by
        rw [List.map_append]
        rfl
      rw [hl] at h
      simp only [hnext] at h
      obtain ⟨before, after, rfl, hok, hfirst, hfile⟩ := ih h
      refine ⟨id :: before, after, rfl, ?_, ?_, hfile⟩
      · rw [claimFilenames, hl]
        simp only [hnext]
        exact hok
      · rw [List.append_assoc] at hfirst
        exact hfirst

/-- A collision is at the first identity whose file is claimed by one before it. -/
theorem of_checkFilenames_error {ids : List Identity} {c : Collision}
    (h : checkFilenames ids = .error c) :
    ∃ before after, ids = before ++ c.second :: after ∧ checkFilenames before = .ok () ∧
      c.first ∈ claimants before ∧ c.first.filename = c.filename ∧
      c.filename = c.second.filename :=
  @of_claimFilenames_error [.contract] _ _ h

/-- What is reported of a failure is the first clash. -/
theorem exists_firstClash {ids : List Identity} {c : Collision}
    (h : checkFilenames ids = .error c) :
    ∃ i j, FirstClash (claimants ids) i j ∧ (claimants ids)[i]? = some c.first ∧
      (claimants ids)[j]? = some (.type c.second) ∧ c.filename = c.second.filename := by
  obtain ⟨before, after, rfl, hok, hfirst, hfile, hname⟩ := of_checkFilenames_error h
  obtain ⟨i, hi⟩ := List.getElem?_of_mem hfirst
  obtain ⟨hlt, -⟩ := List.getElem?_eq_some_iff.mp hi
  rw [claimants_append, List.map_cons]
  refine ⟨i, (claimants before).length, ?_, ?_, by simp, hname⟩
  · have hsame : c.first.filename = (FileOwner.type c.second).filename := hfile.trans hname
    exact firstClash_of_split (checkFilenames_ok_iff_not_clash.mp hok) hi hsame _
  · rw [List.getElem?_append_left hlt, hi]

/-- A file belongs to the contract only by its name. -/
theorem first_eq_contract_iff {ids : List Identity} {c : Collision}
    (h : checkFilenames ids = .error c) :
    c.first = .contract ↔ c.filename = contractFilename := by
  obtain ⟨before, after, rfl, hok, hfirst, hfile, hname⟩ := of_checkFilenames_error h
  rw [← hfile]
  constructor
  · intro hcontract
    rw [hcontract]
    rfl
  · intro hcontract
    rcases List.mem_cons.mp hfirst with heq | hmem
    · exact heq
    · obtain ⟨id, hid, heq⟩ := List.mem_map.mp hmem
      rw [← heq] at hcontract
      exact absurd hcontract ((checkFilenames_ok_iff.mp hok).1 id hid)

/-- Types have one file when their names are made the same identifier. -/
theorem Identity.filename_eq_filename_iff {a b : Identity} :
    a.filename = b.filename ↔ TypeScript.Merged a.name b.name := by
  rw [filename, filename, String.append_left_inj, declaredName, declaredName,
    TypeScript.identifier_eq_identifier_iff]

/-- Only a type with the contract's name has the contract's file. -/
theorem Identity.filename_eq_contractFilename_iff {id : Identity} :
    id.filename = contractFilename ↔ id.name = contractName := by
  have hfile : contractFilename = contractName ++ ".ts" := rfl
  rw [filename, hfile, String.append_left_inj, declaredName]
  exact TypeScript.identifier_eq_iff (by decide) (by decide)

/-- The check of file names passes exactly when the files of the types are distinct and none is that
of the contract. It fails exactly when there is a first clash of the contract and the types, and
then it reports the later of the two types, their file, and the only owner that the file has before
it: the contract, just when the file is its own. Namespaces and arities play no part: two types
have one file when their names become one identifier, and a type has that of the contract when it is
called like it. -/
theorem checkFilenames_reports_first (ids : List Identity) :
    (checkFilenames ids = .ok () ↔
      (ids.map Identity.filename).Nodup ∧ contractFilename ∉ ids.map Identity.filename) ∧
    (∀ c, checkFilenames ids = .error c ↔
      ∃ i j, FirstClash (claimants ids) i j ∧ (claimants ids)[i]? = some c.first ∧
        (claimants ids)[j]? = some (.type c.second) ∧ c.filename = c.second.filename) ∧
    (∀ c, checkFilenames ids = .error c →
      (c.first = .contract ↔ c.filename = contractFilename)) ∧
    (∀ a b : Identity, a.filename = b.filename ↔ TypeScript.Merged a.name b.name) ∧
    ∀ id : Identity, id.filename = contractFilename ↔ id.name = contractName := by
  refine ⟨?_, fun c => ⟨exists_firstClash, ?_⟩, fun c => first_eq_contract_iff,
    fun a b => Identity.filename_eq_filename_iff,
    fun id => Identity.filename_eq_contractFilename_iff⟩
  · rw [checkFilenames_ok_iff, and_comm, List.mem_map]
    simp only [not_exists, not_and]
  · rintro ⟨i, j, hclash, hfirst, hsecond, hname⟩
    cases hcheck : checkFilenames ids with
    | ok =>
      exact absurd hclash.clash (checkFilenames_ok_iff_not_clash.mp hcheck i j)
    | error c' =>
      -- There is one first clash, so both reports are of the same positions.
      obtain ⟨i', j', hclash', hfirst', hsecond', hname'⟩ := exists_firstClash hcheck
      obtain ⟨rfl, rfl⟩ := hclash.unique hclash'
      rw [hfirst] at hfirst'
      rw [hsecond] at hsecond'
      obtain ⟨file, first, second⟩ := c
      obtain ⟨file', first', second'⟩ := c'
      cases hfirst'
      cases hsecond'
      rw [show file = _ from hname, show file' = _ from hname']

example : checkFilenames [⟨"Shop", "Order+Line", 0⟩, ⟨"Shop", "Order", 0⟩, ⟨"Admin", "Order", 1⟩] =
    .error ⟨"Order.ts", .type ⟨"Shop", "Order", 0⟩, ⟨"Admin", "Order", 1⟩⟩ := rfl

end ApiTypings
