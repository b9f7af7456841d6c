import ApiTypings.Naming

/-!
# Every type has a file of its own

The check of file names passes exactly when the names are pairwise distinct and none is the name
of the contract's file. A declared name is never a reserved word.
-/

namespace ApiTypings

/-- A name is not a reserved word once it is made plain, since no such word starts with `_`. -/
theorem TypeScript.identifier_not_mem_reservedWords (name : String) :
    identifier name ∉ reservedWords := by
  have hguarded : ∀ w ∈ reservedWords, w.toList.head? ≠ some '_' := by decide
  have hguard : ∀ cs, String.ofList (guardReserved cs) ∉ reservedWords := by
    intro cs hmem
    by_cases hcs : isReserved (String.ofList cs)
    · rw [guardReserved, if_pos hcs] at hmem
      exact hguarded _ hmem (by rw [String.toList_ofList]; rfl)
    · rw [guardReserved, if_neg hcs] at hmem
      exact hcs (List.contains_iff_mem.mpr hmem)
  rw [identifier]
  split
  · decide
  · exact hguard _

/-- Every character of a name that was made plain may stand in a plain name. -/
theorem TypeScript.isPlainChar_of_mem_identifier {name : String} {c : Char}
    (h : c ∈ (identifier name).toList) : isPlainChar c = true := by
  have hplain : ∀ d, isPlainChar (plainChar d) = true := by
    intro d
    by_cases hd : isPlainChar d = true
    · rw [plainChar, if_pos hd, hd]
    · rw [plainChar, if_neg hd]
      decide
  have hdigit : ∀ cs, c ∈ guardDigit cs → c = '_' ∨ c ∈ cs := by
    intro cs hmem
    cases cs with
    | nil => exact .inr hmem
    | cons d ds =>
      rw [guardDigit] at hmem
      split at hmem
      · exact List.mem_cons.mp hmem
      · exact .inr hmem
  have hreserved : ∀ cs, c ∈ guardReserved cs → c = '_' ∨ c ∈ cs := by
    intro cs hmem
    rw [guardReserved] at hmem
    split at hmem
    · exact List.mem_cons.mp hmem
    · exact .inr hmem
  rw [identifier] at h
  split at h
  · exact List.all_eq_true.mp (by decide : "_empty".toList.all isPlainChar = true) c h
  · rw [String.toList_ofList] at h
    rcases hreserved _ h with rfl | h
    · decide
    · rcases hdigit _ h with rfl | h
      · decide
      · obtain ⟨d, _, rfl⟩ := List.mem_map.mp h
        exact hplain d

/-- No declared name is a reserved word. -/
theorem Identity.declaredName_not_mem_reservedWords (id : Identity) :
    id.declaredName ∉ TypeScript.reservedWords :=
  TypeScript.identifier_not_mem_reservedWords id.name

/-- Claims succeed when the files are free and different. -/
theorem claimFilenames_ok_iff {owners : List (String × FileOwner)} {ids : List Identity} :
    claimFilenames owners ids = .ok () ↔
      (∀ id ∈ ids, id.filename ∉ owners.map Prod.fst) ∧ (ids.map Identity.filename).Nodup := by
  induction ids generalizing owners with
  | nil => exact ⟨fun _ => ⟨nofun, List.nodup_nil⟩, fun _ => rfl⟩
  | cons id ids ih =>
    rw [List.forall_mem_cons, List.map_cons, List.nodup_cons, claimFilenames]
    cases hl : owners.lookup id.filename with
    | some first =>
      refine ⟨nofun, ?_⟩
      rintro ⟨⟨hfresh, _⟩, _⟩
      have hnone : owners.lookup id.filename = none := by
        rw [List.lookup_eq_none_iff]
        intro p hp
        rw [bne_iff_ne]
        intro heq
        exact hfresh (heq ▸ List.mem_map_of_mem hp)
      rw [hl] at hnone
      cases hnone
    | none =>
      have hfresh : id.filename ∉ owners.map Prod.fst := by
        intro hmem
        obtain ⟨p, hp, heq⟩ := List.mem_map.mp hmem
        have hne := List.lookup_eq_none_iff.mp hl p hp
        rw [heq, bne_self_eq_false] at hne
        cases hne
      simp only [ih, List.map_append, List.map_cons, List.map_nil, List.mem_append,
        List.mem_singleton, not_or]
      constructor
      · rintro ⟨hall, hnodup⟩
        refine ⟨⟨hfresh, fun x hx => (hall x hx).1⟩, ?_, hnodup⟩
        intro hmem
        obtain ⟨x, hx, heq⟩ := List.mem_map.mp hmem
        exact (hall x hx).2 heq
      · rintro ⟨⟨_, hall⟩, hnew, hnodup⟩
        refine ⟨fun x hx => ⟨hall x hx, ?_⟩, hnodup⟩
        intro heq
        exact hnew (List.mem_map.mpr ⟨x, hx, heq⟩)

/-- The check passes on distinct names other than that of the contract's file. -/
theorem checkFilenames_ok_iff {ids : List Identity} :
    checkFilenames ids = .ok () ↔
      (∀ id ∈ ids, id.filename ≠ contractFilename) ∧ (ids.map Identity.filename).Nodup := by
  rw [checkFilenames, claimFilenames_ok_iff]
  simp only [List.map_cons, List.map_nil, List.mem_singleton]

/-- The order of the identities does not matter to the check. -/
theorem checkFilenames_ok_of_perm {ids ids' : List Identity} (hp : ids.Perm ids')
    (h : checkFilenames ids = .ok ()) : checkFilenames ids' = .ok () := by
  rw [checkFilenames_ok_iff] at h ⊢
  exact ⟨fun id hid => h.1 id (hp.mem_iff.mpr hid), ((hp.map _).nodup_iff).mp h.2⟩

end ApiTypings
