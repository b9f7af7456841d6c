import ApiTypings.Proofs.Disk.Base
import Mathlib.Data.String.Basic

/-!
# Temporary directories

A temporary directory is made when one of the endings that are tried leads to a name that is free,
and it is made in the directory that was asked for, under a name that nothing had. All names with
one stem are equally long, so whether there is room for them does not depend on the ending.
-/

namespace ApiTypings

namespace Path

variable {stem : String} {ending : Ending}

/-- A temporary name has the characters of its stem, letters and digits. -/
theorem not_mem_temporaryName {c : Char} (hplain : c.isAlphanum = false) (hstem : c ∉ stem.toList) :
    c ∉ (temporaryName stem ending).toList := by
  rw [temporaryName, String.toList_append, List.mem_append, not_or]
  refine ⟨hstem, fun hmem => ?_⟩
  rw [ending.alphanumeric c hmem] at hplain
  cases hplain

/-- Letters and digits take one byte each. -/
theorem utf8Len_of_alphanum {cs : List Char} (h : ∀ c ∈ cs, c.isAlphanum = true) :
    String.utf8Len cs = cs.length := by
  induction cs with
  | nil => rfl
  | cons c cs ih =>
    rw [List.forall_mem_cons] at h
    have hsize : c.utf8Size = 1 := by
      rw [Char.utf8Size_eq_one_iff]
      have hrange : ∀ {low high : UInt32},
          (decide (c.val ≥ low) && decide (c.val ≤ high)) = true → c.val ≤ high :=
        fun hc => of_decide_eq_true (Bool.and_eq_true_iff.mp hc).2
      rcases Bool.or_eq_true_iff.mp h.1 with hletter | hdigit
      · rcases Bool.or_eq_true_iff.mp hletter with hupper | hlower
        · exact UInt32.le_trans (of_decide_eq_true hupper).2 (by decide)
        · exact UInt32.le_trans (hrange hlower) (by decide)
      · exact UInt32.le_trans (hrange hdigit) (by decide)
    rw [String.utf8Len_cons, ih h.2, hsize, List.length_cons]

/-- All temporary names with one stem are equally long. -/
theorem utf8ByteSize_temporaryName (stem : String) (ending : Ending) :
    (temporaryName stem ending).utf8ByteSize = stem.utf8ByteSize + 6 := by
  have hsize : ending.text.utf8ByteSize = 6 := by
    rw [← String.ofList_toList (s := ending.text), String.utf8ByteSize_ofList,
      utf8Len_of_alphanum ending.alphanumeric, String.length_toList, ending.length_text]
  rw [temporaryName, String.utf8ByteSize_append, hsize]

/-- A text of another length is no temporary name. -/
theorem temporaryName_ne {s : String} (h : s.utf8ByteSize ≠ stem.utf8ByteSize + 6) :
    temporaryName stem ending ≠ s := by
  rintro rfl
  exact h (utf8ByteSize_temporaryName stem ending)

/-- A text that is shorter than an ending is no temporary name. -/
theorem temporaryName_ne_of_lt {s : String} (h : s.utf8ByteSize < 6) :
    temporaryName stem ending ≠ s :=
  temporaryName_ne (by omega)

end Path

namespace Disk

variable {d d' d'' : Disk} {p : Place} {base stem name : String} {inside : List String}

/-! ## Endings in store -/

/-- Endings in store are at no place. -/
@[simp]
theorem at?_withEndings (d : Disk) (endings : Nat → Ending) (p : Place) :
    (d.withEndings endings).at? p = d.at? p := rfl

/-- Other endings in store keep a disk well-formed. -/
theorem WellFormed.withEndings (h : d.WellFormed) (endings : Nat → Ending) :
    (d.withEndings endings).WellFormed :=
  ⟨h.name, h.parent⟩

/-- Other endings in store keep a base. -/
theorem Base.withEndings (h : d.Base base p) (endings : Nat → Ending) :
    (d.withEndings endings).Base base p :=
  h.of_open h.opened

/-- Some endings have been drawn, and the others are still in store. -/
def Drawn (d d' : Disk) : Prop := ∃ k, ∀ n, d'.endings n = d.endings (k + n)

/-- It may be that nothing has been drawn. -/
theorem Drawn.refl (d : Disk) : d.Drawn d := ⟨0, fun n => by rw [Nat.zero_add]⟩

/-- With the same endings in store nothing has been drawn. -/
theorem Drawn.of_eq (h : d'.endings = d.endings) : d.Drawn d' :=
  ⟨0, fun n => by rw [h, Nat.zero_add]⟩

/-- Endings may be drawn in several turns. -/
theorem Drawn.trans (h : d.Drawn d') (h' : d'.Drawn d'') : d.Drawn d'' := by
  obtain ⟨k, hk⟩ := h
  obtain ⟨k', hk'⟩ := h'
  exact ⟨k + k', fun n => by rw [hk', hk, Nat.add_assoc]⟩

/-- One ending has been drawn. -/
theorem drawn_drawn (d : Disk) : d.Drawn d.drawn :=
  ⟨1, fun n => congrArg d.endings (Nat.add_comm n 1)⟩

/-! ## Free names -/

/-- A name for a temporary directory in the directory `p`, with room for the paths to it and to
names inside it. -/
structure Free (d : Disk) (base : String) (p : Place) (inside : List String) (name : String) :
    Prop where
  nothing : d.at? (p ++ [name]) = none
  short : name.utf8ByteSize ≤ maxName
  room : (Path.join base name).utf8ByteSize < maxPath
  roomInside : ∀ s ∈ inside, IsName s →
    (Path.join base name).utf8ByteSize + 1 + s.utf8ByteSize < maxPath

/-- What a stem must be for temporary names to be names. -/
structure IsStem (stem : String) : Prop where
  slash : '/' ∉ stem.toList
  null : '\x00' ∉ stem.toList

/-- A stem with an ending that is not too long is a name. -/
theorem IsStem.isName (h : IsStem stem) {ending : Ending}
    (hshort : (Path.temporaryName stem ending).utf8ByteSize ≤ maxName) :
    IsName (Path.temporaryName stem ending) where
  ne_empty := Path.temporaryName_ne_of_lt (by decide)
  slash := Path.not_mem_temporaryName (by decide) h.slash
  null := Path.not_mem_temporaryName (by decide) h.null
  ne_dot := Path.temporaryName_ne_of_lt (by decide)
  ne_dots := Path.temporaryName_ne_of_lt (by decide)
  short := hshort

/-- With another ending a free name is free unless it is taken. -/
theorem Free.ending {ending : Ending} (h : d.Free base p inside (Path.temporaryName stem ending))
    (hstem : IsStem stem) {ending' : Ending}
    (hnothing : d.at? (p ++ [Path.temporaryName stem ending']) = none) :
    d.Free base p inside (Path.temporaryName stem ending') := by
  have hsize : (Path.temporaryName stem ending').utf8ByteSize =
      (Path.temporaryName stem ending).utf8ByteSize := by
    rw [Path.utf8ByteSize_temporaryName, Path.utf8ByteSize_temporaryName]
  have hshort := hsize.trans_le h.short
  have hjoin : (Path.join base (Path.temporaryName stem ending')).utf8ByteSize ≤
      (Path.join base (Path.temporaryName stem ending)).utf8ByteSize :=
    Path.utf8ByteSize_join_le (hstem.isName hshort).isRelative (hstem.isName h.short).isRelative
      hsize.le
  refine ⟨hnothing, hshort, Nat.lt_of_le_of_lt hjoin h.room, fun s hs hname => ?_⟩
  have hroom := h.roomInside s hs hname
  omega

/-! ## Making one -/

variable {directory : String} {tries : Nat}

/-- A try whose name is free makes the directory. -/
theorem makeTemporary_made
    (h : d.makeDirectory (Path.join (d.absolute directory)
      (Path.temporaryName stem (d.endings 0))) = .ok d') :
    d.makeTemporary directory stem (tries + 1) =
      (.ok (Path.join (d.absolute directory) (Path.temporaryName stem (d.endings 0))),
        d'.drawn) := by
  unfold makeTemporary
  dsimp only
  rw [h]

/-- A try whose name is taken is followed by the next. -/
theorem makeTemporary_taken
    (h : d.makeDirectory (Path.join (d.absolute directory)
      (Path.temporaryName stem (d.endings 0))) = .error .alreadyExists) :
    d.makeTemporary directory stem (tries + 1) = d.drawn.makeTemporary directory stem tries := by
  conv_lhs => unfold makeTemporary
  dsimp only
  rw [h]

/-- A try that fails in another way is the last. -/
theorem makeTemporary_failed {fault : DiskFault}
    (h : d.makeDirectory (Path.join (d.absolute directory)
      (Path.temporaryName stem (d.endings 0))) = .error fault) (hfault : fault ≠ .alreadyExists) :
    d.makeTemporary directory stem (tries + 1) = (.error fault, d.drawn) := by
  unfold makeTemporary
  dsimp only
  rw [h]
  cases fault with
  | alreadyExists => exact absurd rfl hfault
  | _ => rfl

/-- If a free name is among those that are tried, a temporary directory is made in the directory
asked for, under a free name. -/
theorem makeTemporary_eq (hb : d.Base (d.absolute directory) p) (hd : d.WellFormed)
    (hstem : IsStem stem) {number : Nat} (hnumber : number < tries)
    (hfree : d.Free (d.absolute directory) p inside
      (Path.temporaryName stem (d.endings number))) :
    ∃ first endings,
      d.Free (d.absolute directory) p inside (Path.temporaryName stem (d.endings first)) ∧
      d.makeTemporary directory stem tries =
        (.ok (Path.join (d.absolute directory) (Path.temporaryName stem (d.endings first))),
          (d.put (p ++ [Path.temporaryName stem (d.endings first)]) .directory).withEndings
            endings) := by
  induction tries generalizing d number with
  | zero => exact absurd hnumber (Nat.not_lt_zero _)
  | succ tries ih =>
    have hsize : (Path.temporaryName stem (d.endings 0)).utf8ByteSize =
        (Path.temporaryName stem (d.endings number)).utf8ByteSize := by
      rw [Path.utf8ByteSize_temporaryName, Path.utf8ByteSize_temporaryName]
    have hname := hstem.isName (hsize.trans_le hfree.short)
    have hroom := Nat.lt_of_le_of_lt (Path.utf8ByteSize_join_le hname.isRelative
      (hstem.isName hfree.short).isRelative hsize.le) hfree.room
    have hpath := hb.isPath_join hname hroom
    have hleads := hb.leads_join hname d
    cases hat : d.at? (p ++ [Path.temporaryName stem (d.endings 0)]) with
    | none =>
      have hmake := makeDirectory_nothing hpath hd (hb.open_join _) (by rw [hleads, hat])
      rw [hleads] at hmake
      exact ⟨0, fun n => d.endings (n + 1), hfree.ending hstem hat, makeTemporary_made hmake⟩
    | some node =>
      have hmake := makeDirectory_something hpath hd (hb.open_join _) (by rw [hleads, hat])
      -- The name is taken, so the free one is among those that come later.
      obtain ⟨number, rfl⟩ : ∃ n, number = n + 1 := by
        refine Nat.exists_eq_succ_of_ne_zero ?_
        rintro rfl
        rw [hfree.nothing] at hat
        cases hat
      obtain ⟨first, endings, hfirst, hrun⟩ := ih (d := d.drawn) (hb.withEndings _)
        (hd.withEndings _) (Nat.lt_of_succ_lt_succ hnumber)
        ⟨hfree.nothing, hfree.short, hfree.room, hfree.roomInside⟩
      exact ⟨first + 1, endings,
        ⟨hfirst.nothing, hfirst.short, hfirst.room, hfirst.roomInside⟩,
        (makeTemporary_taken hmake).trans hrun⟩

end Disk

end ApiTypings
