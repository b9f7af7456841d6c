import ApiTypings.Disk.Tree
import Mathlib.Data.List.Infix

/-!
# What is where after a change

A change of a disk is known by what it does to each place: putting something changes one place,
cutting empties a place and everything below it, and moving carries a place and everything below it
to a place with nothing below. On a well-formed disk whatever exists has a name and stands in a
directory, and each of these changes keeps that.
-/

namespace ApiTypings

section Lookup

variable {α β : Type} [BEq α] [LawfulBEq α] {l : List (α × β)} {k k' : α}

private theorem lookup_filter_key (keep : α → Bool) :
    (l.filter fun e => keep e.1).lookup k = if keep k then l.lookup k else none := by
  induction l with
  | nil => simp
  | cons e l ih =>
    rw [List.filter_cons]
    by_cases hk : k = e.1
    · have hbeq : (k == e.1) = true := by rwa [beq_iff_eq]
      cases hkeep : keep e.1 with
      | true => rw [if_pos rfl, List.lookup_cons, hbeq, hk, if_pos hkeep, List.lookup_cons_self]
      | false =>
        have hneg : ¬keep k = true := by rw [hk, hkeep]; exact Bool.false_ne_true
        rw [if_neg Bool.false_ne_true, ih, if_neg hneg, if_neg hneg]
    · have hne : (k == e.1) = false := by rwa [beq_eq_false_iff_ne]
      cases keep e.1 with
      | true => rw [if_pos rfl, List.lookup_cons, List.lookup_cons, hne, ih]
      | false => rw [if_neg Bool.false_ne_true, ih, List.lookup_cons, hne]

/-- Renaming keys looks a key up under the one old key that it comes from. -/
theorem lookup_map_key {rename : α → α} (h : ∀ e ∈ l, rename e.1 = k ↔ e.1 = k') :
    (l.map fun e => (rename e.1, e.2)).lookup k = l.lookup k' := by
  induction l with
  | nil => rfl
  | cons e l ih =>
    rw [List.forall_mem_cons] at h
    have hbeq : (k == rename e.1) = (k' == e.1) := by
      rw [Bool.eq_iff_iff, beq_iff_eq, beq_iff_eq, eq_comm, h.1, eq_comm]
    rw [List.map_cons, List.lookup_cons, List.lookup_cons, hbeq, ih h.2]

private theorem lookup_eq_none_of_forall (h : ∀ e ∈ l, e.1 ≠ k) : l.lookup k = none := by
  rw [List.lookup_eq_none_iff]
  intro e he
  rw [bne_iff_ne]
  exact (h e he).symm

end Lookup

namespace Disk

variable {d : Disk} {p q place source target : Place} {name : String} {node : DiskNode}

private theorem at?_of_ne_nil (h : p ≠ []) : d.at? p = d.entries.lookup p := if_neg h

/-- A place other than the root is empty if and only if the disk has no entry for it. -/
theorem at?_eq_none_iff (h : p ≠ []) : d.at? p = none ↔ ∀ e ∈ d.entries, e.1 ≠ p := by
  rw [at?_of_ne_nil h, List.lookup_eq_none_iff]
  refine forall₂_congr fun e _ => ?_
  rw [bne_iff_ne]
  exact ne_comm

/-! ## Each change, place by place -/

/-- What is put at a place is there, and nothing else changes. -/
theorem at?_put (hplace : place ≠ []) (node : DiskNode) (p : Place) :
    (d.put place node).at? p = if p = place then some node else d.at? p := by
  by_cases hp : p = []
  · subst hp
    rw [if_neg (Ne.symm hplace)]
    rfl
  · rw [at?_of_ne_nil hp, at?_of_ne_nil hp]
    have hkept := lookup_filter_key (l := d.entries) (k := p) fun key => decide (key ≠ place)
    rw [put, List.lookup_append, hkept]
    by_cases heq : p = place
    · subst heq
      simp
    · have hne : (p == place) = false := by rwa [beq_eq_false_iff_ne]
      simp [heq, List.lookup_cons, hne]

/-- What is put at a place is there. -/
theorem at?_put_self (hplace : place ≠ []) (node : DiskNode) :
    (d.put place node).at? place = some node := by
  rw [at?_put hplace, if_pos rfl]

/-- Nothing is left at a place that is cut and below it, and nothing else changes. -/
theorem at?_cut (hplace : place ≠ []) (p : Place) :
    (d.cut place).at? p = if place <+: p then none else d.at? p := by
  by_cases hp : p = []
  · subst hp
    rw [if_neg (fun h => hplace (List.prefix_nil.mp h))]
    rfl
  · rw [at?_of_ne_nil hp, at?_of_ne_nil hp]
    have hkept := lookup_filter_key (l := d.entries) (k := p) fun key => !place.isPrefixOf key
    rw [cut, hkept]
    by_cases hpre : place <+: p
    · rw [if_pos hpre, if_neg (by simpa [List.isPrefixOf_iff_prefix] using hpre)]
    · rw [if_neg hpre, if_pos (by simpa [← List.isPrefixOf_iff_prefix] using hpre)]

/-- Where a move carries a place. -/
def carried (source target place : Place) : Place :=
  if source.isPrefixOf place then target ++ place.drop source.length else place

private theorem carried_append (source target q : Place) :
    carried source target (source ++ q) = target ++ q := by
  rw [carried, if_pos (List.isPrefixOf_iff_prefix.mpr (List.prefix_append ..)), List.drop_left]

private theorem carried_of_not_below (h : ¬source <+: place) :
    carried source target place = place := by
  rw [carried, if_neg (by rwa [List.isPrefixOf_iff_prefix])]

/-- To a place at or below the target is carried what was as far below the source. -/
theorem carried_eq_append_iff (hplace : ¬target <+: place) :
    carried source target place = target ++ q ↔ place = source ++ q := by
  by_cases hsource : source <+: place
  · obtain ⟨rest, rfl⟩ := hsource
    rw [carried_append, List.append_cancel_left_eq, List.append_cancel_left_eq]
  · rw [carried_of_not_below hsource]
    constructor
    · rintro rfl
      exact absurd (List.prefix_append ..) hplace
    · rintro rfl
      exact absurd (List.prefix_append ..) hsource

/-- Elsewhere stays what was not below the source. -/
theorem carried_eq_iff (hp : ¬target <+: p) :
    carried source target place = p ↔ ¬source <+: p ∧ place = p := by
  by_cases hsource : source <+: place
  · obtain ⟨rest, rfl⟩ := hsource
    rw [carried_append]
    constructor
    · rintro rfl
      exact absurd (List.prefix_append ..) hp
    · rintro ⟨hbelow, rfl⟩
      exact absurd (List.prefix_append ..) hbelow
  · rw [carried_of_not_below hsource]
    constructor
    · rintro rfl
      exact ⟨hsource, rfl⟩
    · exact And.right

/-- Moving takes a place and what is below it to a place with nothing below. -/
theorem at?_move (hsource : source ≠ []) (htarget : target ≠ [])
    (hempty : ∀ q ≠ [], d.at? (target ++ q) = none) (happart : ¬source <+: target) (p : Place) :
    (d.move source target).at? p =
      if target <+: p then d.at? (source ++ p.drop target.length)
      else if source <+: p then none else d.at? p := by
  -- Nothing stays below the target, so that all that is found there has been carried to it.
  have hentries : ∀ e ∈ d.entries.filter (·.1 ≠ target), ¬target <+: e.1 := by
    rintro e he ⟨q, hq⟩
    rw [List.mem_filter, decide_eq_true_iff] at he
    by_cases hnil : q = []
    · subst hnil
      exact he.2 (by rw [← hq, List.append_nil])
    · exact (at?_eq_none_iff (by simp [hnil])).mp (hempty q hnil) e he.1 hq.symm
  have hkept : ∀ key ≠ target,
      (d.entries.filter (·.1 ≠ target)).lookup key = d.entries.lookup key := by
    intro key hkey
    have hfilter := lookup_filter_key (l := d.entries) (k := key) fun key => decide (key ≠ target)
    rwa [if_pos (decide_eq_true hkey)] at hfilter
  have hmove : (d.move source target).entries =
      (d.entries.filter (·.1 ≠ target)).map fun e => (carried source target e.1, e.2) := rfl
  by_cases hp : p = []
  · subst hp
    rw [if_neg fun h => htarget (List.prefix_nil.mp h),
      if_neg fun h => hsource (List.prefix_nil.mp h)]
    rfl
  rw [at?_of_ne_nil hp, hmove]
  by_cases htp : target <+: p
  · obtain ⟨q, rfl⟩ := htp
    have hne : source ++ q ≠ target := by
      rintro rfl
      exact happart (List.prefix_append ..)
    rw [if_pos (List.prefix_append ..), List.drop_left, at?_of_ne_nil (by simp [hsource]),
      lookup_map_key fun e he => carried_eq_append_iff (hentries e he), hkept _ hne]
  rw [if_neg htp]
  by_cases hsp : source <+: p
  · rw [if_pos hsp]
    refine lookup_eq_none_of_forall fun x hx => ?_
    obtain ⟨e, _, rfl⟩ := List.mem_map.mp hx
    exact fun heq => ((carried_eq_iff htp).mp heq).1 hsp
  · have hne : p ≠ target := by
      rintro rfl
      exact htp (List.prefix_refl _)
    have hkey : ∀ e ∈ d.entries.filter (·.1 ≠ target), carried source target e.1 = p ↔ e.1 = p :=
      fun e _ => (carried_eq_iff htp).trans (and_iff_right hsp)
    rw [if_neg hsp, at?_of_ne_nil hp, lookup_map_key hkey, hkept _ hne]

/-! ## What a change leaves alone -/

/-- Two disks differ at most at some places and below them. -/
def Frame (d d' : Disk) (changed : List Place) : Prop :=
  ∀ q, (∀ r ∈ changed, ¬r <+: q) → d'.at? q = d.at? q

namespace Frame

variable {d' d'' : Disk} {changed changed' : List Place}

/-- Two changes leave what both leave. -/
theorem trans (h : d.Frame d' changed) (h' : d'.Frame d'' changed) : d.Frame d'' changed :=
  fun q hq => (h' q hq).trans (h q hq)

/-- It may be said that more has changed. -/
theorem mono (h : d.Frame d' changed) (hsub : ∀ r ∈ changed, ∃ r' ∈ changed', r' <+: r) :
    d.Frame d' changed' := by
  intro q hq
  refine h q fun r hr hpre => ?_
  obtain ⟨r', hr', hle⟩ := hsub r hr
  exact hq r' hr' (hle.trans hpre)

end Frame

/-- Putting changes one place. -/
theorem frame_put (hplace : place ≠ []) (node : DiskNode) :
    d.Frame (d.put place node) [place] := by
  intro q hq
  rw [at?_put hplace, if_neg]
  rintro rfl
  exact hq q (List.mem_singleton_self q) (List.prefix_refl q)

/-- Moving changes what is at its source and at its target. -/
theorem frame_move (hsource : source ≠ []) (htarget : target ≠ [])
    (hempty : ∀ q ≠ [], d.at? (target ++ q) = none) (happart : ¬source <+: target) :
    d.Frame (d.move source target) [source, target] := by
  intro q hq
  rw [at?_move hsource htarget hempty happart, if_neg (hq target (by simp)),
    if_neg (hq source (by simp))]

/-! ## Well-formed disks -/

/-- A name that a file or a directory may have. -/
structure IsName (name : String) : Prop where
  ne_empty : name ≠ ""
  slash : '/' ∉ name.toList
  null : '\x00' ∉ name.toList
  ne_dot : name ≠ "."
  ne_dots : name ≠ ".."
  short : name.utf8ByteSize ≤ maxName

/-- Whatever is on the disk has a name and stands in a directory. -/
structure WellFormed (d : Disk) : Prop where
  name : ∀ p name node, d.at? (p ++ [name]) = some node → IsName name
  parent : ∀ p name node, d.at? (p ++ [name]) = some node → d.at? p = some .directory

namespace WellFormed

variable (h : d.WellFormed)

include h

/-- Whatever is below a place stands in a directory there. -/
theorem directory_above (hq : q ≠ []) (hnode : d.at? (p ++ q) = some node) :
    d.at? p = some .directory := by
  induction q using List.reverseRecOn generalizing node with
  | nil => exact absurd rfl hq
  | append_singleton q name ih =>
    rw [← List.append_assoc] at hnode
    have hparent := h.parent _ _ _ hnode
    by_cases hnil : q = []
    · rwa [hnil, List.append_nil] at hparent
    · exact ih hnil hparent

/-- Nothing is below a place where there is no directory. -/
theorem nothing_below (hp : d.at? p ≠ some .directory) (hq : q ≠ []) : d.at? (p ++ q) = none := by
  cases hnode : d.at? (p ++ q) with
  | none => rfl
  | some node => exact absurd (h.directory_above hq hnode) hp

/-- Nothing is at or below a place where there is nothing. -/
theorem empty_below (hp : d.at? p = none) (hq : p <+: q) : d.at? q = none := by
  obtain ⟨rest, rfl⟩ := hq
  by_cases hrest : rest = []
  · rw [hrest, List.append_nil, hp]
  · exact h.nothing_below (by rw [hp]; simp) hrest

/-- Nothing is below what is put where there was nothing. -/
theorem at?_put_below (hnothing : d.at? p = none) (hp : p ≠ []) (node : DiskNode) (hq : q ≠ []) :
    (d.put p node).at? (p ++ q) = none := by
  rw [at?_put hp, if_neg (by simpa using hq)]
  exact h.empty_below hnothing (List.prefix_append p q)

/-- A well-formed disk stays so when something is put into a directory under a name. -/
theorem put (hp : d.at? p = some .directory) (hname : IsName name)
    (hnode : node = .directory ∨ d.at? (p ++ [name]) ≠ some .directory) :
    (d.put (p ++ [name]) node).WellFormed where
  name := by
    intro q n x hx
    rw [at?_put (by simp)] at hx
    by_cases heq : q ++ [n] = p ++ [name]
    · obtain ⟨_, rfl⟩ := List.append_singleton_inj.mp heq
      exact hname
    · rw [if_neg heq] at hx
      exact h.name _ _ _ hx
  parent := by
    intro q n x hx
    rw [at?_put (by simp)] at hx ⊢
    by_cases heq : q ++ [n] = p ++ [name]
    · obtain ⟨rfl, _⟩ := List.append_singleton_inj.mp heq
      rw [if_neg (by simp), hp]
    · rw [if_neg heq] at hx
      have hparent := h.parent _ _ _ hx
      by_cases hq : q = p ++ [name]
      · rcases hnode with rfl | hnode
        · rw [if_pos hq]
        · exact absurd (hq ▸ hparent) hnode
      · rw [if_neg hq, hparent]

/-- A well-formed disk stays so when a place is cut. -/
theorem cut (hplace : place ≠ []) : (d.cut place).WellFormed where
  name := by
    intro q n x hx
    rw [at?_cut hplace] at hx
    by_cases hpre : place <+: q ++ [n]
    · rw [if_pos hpre] at hx
      cases hx
    · rw [if_neg hpre] at hx
      exact h.name _ _ _ hx
  parent := by
    intro q n x hx
    rw [at?_cut hplace] at hx ⊢
    by_cases hpre : place <+: q ++ [n]
    · rw [if_pos hpre] at hx
      cases hx
    · rw [if_neg hpre] at hx
      rw [if_neg fun hq => hpre (hq.trans (List.prefix_append ..)), h.parent _ _ _ hx]

/-- A well-formed disk stays so when something is moved to where nothing is. -/
theorem move (hsource : source ≠ []) (hp : d.at? p = some .directory) (hname : IsName name)
    (hempty : ∀ q ≠ [], d.at? (p ++ [name] ++ q) = none) (happart : ¬source <+: p ++ [name]) :
    (d.move source (p ++ [name])).WellFormed := by
  have hmove := at?_move hsource (by simp) hempty happart
  have hcases : ∀ q n x, (d.move source (p ++ [name])).at? (q ++ [n]) = some x →
      (q = p ∧ n = name) ∨
      (∃ r, q = p ++ [name] ++ r ∧ d.at? (source ++ r ++ [n]) = some x) ∨
      (¬p ++ [name] <+: q ++ [n] ∧ ¬source <+: q ++ [n] ∧ d.at? (q ++ [n]) = some x) := by
    intro q n x hx
    rw [hmove] at hx
    by_cases hpre : p ++ [name] <+: q ++ [n]
    · rcases List.prefix_concat_iff.mp hpre with heq | ⟨r, rfl⟩
      · obtain ⟨rfl, rfl⟩ := List.append_singleton_inj.mp heq
        exact .inl ⟨rfl, rfl⟩
      · rw [if_pos hpre, List.append_assoc, List.drop_left, ← List.append_assoc] at hx
        exact .inr (.inl ⟨r, rfl, hx⟩)
    · rw [if_neg hpre] at hx
      by_cases hsp : source <+: q ++ [n]
      · rw [if_pos hsp] at hx
        cases hx
      · rw [if_neg hsp] at hx
        exact .inr (.inr ⟨hpre, hsp, hx⟩)
  constructor
  · intro q n x hx
    rcases hcases q n x hx with ⟨_, rfl⟩ | ⟨r, _, hr⟩ | ⟨_, _, hq⟩
    · exact hname
    · exact h.name _ _ _ hr
    · exact h.name _ _ _ hq
  · intro q n x hx
    rw [hmove]
    rcases hcases q n x hx with ⟨rfl, rfl⟩ | ⟨r, rfl, hr⟩ | ⟨hpre, hsp, hq⟩
    · have hself : ¬q ++ [n] <+: q := fun ht => absurd ht.length_le (by simp)
      rw [if_neg hself, if_neg fun hs => happart (hs.trans (List.prefix_append ..)), hp]
    · rw [if_pos (List.prefix_append ..), List.drop_left, h.parent _ _ _ hr]
    · rw [if_neg fun ht => hpre (ht.trans (List.prefix_append ..)),
        if_neg fun hs => hsp (hs.trans (List.prefix_append ..)), h.parent _ _ _ hq]

end WellFormed

end Disk

end ApiTypings
