import ApiTypings.Proofs.Disk.Directories
import ApiTypings.Proofs.Sink.Replacing

/-!
# Roots that can be replaced

A root can be replaced if its path ends in a name, meets no file and does not lead through the root
itself on its way. When the directories on that way have been made, the root is ready for a swap.
-/

namespace ApiTypings.Disk

variable {d d' : Disk} {root name : String} {q : Place}

/-- The places that a root's path leads through before the root. -/
def above (d : Disk) (root : String) : List Place :=
  trail (d.origin root) (Path.components root).dropLast

/-- Where the root of a path is. -/
def site (d : Disk) (root : String) : Site where
  root := root
  before := (Path.components root).dropLast
  name := (Path.components root).getLastD ""
  parent := Path.directory root
  base := d.absolute (Path.directory root)
  place := follow (d.origin root) (Path.components root).dropLast

private theorem site_base (d : Disk) (root : String) :
    (d.site root).base = d.absolute (d.site root).parent := by
  simp only [site]

/-- A root that is absent or a directory, and that can be moved: its path is neither malformed nor
too long, ends in a name, meets no file and does not lead through the root on its way. -/
structure Replaceable (d : Disk) (root : String) : Prop where
  wellFormed : d.WellFormed
  null : '\x00' ∉ root.toList
  short : root.utf8ByteSize < maxPath
  shortNames : ∀ c ∈ Path.components root, c.utf8ByteSize ≤ maxName
  named : ∃ name ∈ (Path.components root).getLast?, name ≠ "." ∧ name ≠ ".."
  origin : d.at? (d.origin root) = some .directory
  passable : ∀ q ∈ trail (d.origin root) (Path.components root),
    d.at? q = none ∨ d.at? q = some .directory
  apart : d.leads root ∉ d.origin root :: d.above root

/-- What is above a root depends on the current directory only. -/
theorem above_congr (h : d'.current = d.current) (root : String) :
    d'.above root = d.above root := by
  rw [above, above, Disk.origin, Disk.origin, h]

/-- The site of a root depends on the current directory only. -/
theorem site_congr (h : d'.current = d.current) (root : String) : d'.site root = d.site root := by
  rw [site, site, Disk.origin, Disk.origin, absolute, absolute, h]

/-- Where a path leads depends on the current directory only. -/
theorem leads_congr (h : d'.current = d.current) (root : String) :
    d'.leads root = d.leads root := by
  rw [leads, leads, Disk.origin, Disk.origin, h]

namespace Replaceable

variable (h : d.Replaceable root)

include h

/-- The components of a root end in its name. -/
theorem components_eq : Path.components root = (d.site root).before ++ [(d.site root).name] := by
  obtain ⟨name, hlast, -⟩ := h.named
  obtain ⟨before, hbefore⟩ := List.getLast?_eq_some_iff.mp hlast
  simp [site, hbefore]

/-- The name of a root is no dot. -/
theorem ne_dots : (d.site root).name ≠ "." ∧ (d.site root).name ≠ ".." := by
  obtain ⟨name, hlast, hname⟩ := h.named
  obtain ⟨before, hbefore⟩ := List.getLast?_eq_some_iff.mp hlast
  simpa [site, hbefore] using hname

/-- A root is a path that ends in its name. -/
theorem isPath : IsPath root (d.site root).before (d.site root).name where
  components := h.components_eq
  null := h.null
  short := h.short
  lastShort := h.shortNames _ (by rw [h.components_eq]; simp)

/-- The name of a root is one. -/
theorem isName : IsName (d.site root).name := h.isPath.isName h.ne_dots.1 h.ne_dots.2

/-- A root leads to its name in the directory it stands in. -/
theorem leads_eq : d.leads root = (d.site root).beside (d.site root).name := by
  rw [h.isPath.leads_eq, step_of_name h.ne_dots.1 h.ne_dots.2]
  rfl

/-- The root is on no way to it. -/
theorem not_below : ∀ q ∈ d.origin root :: d.above root, ¬d.leads root <+: q := by
  refine not_below_of_not_mem ?_ h.apart
  intro hpre
  rw [h.leads_eq] at hpre
  exact absurd hpre.length_le (by simp [Site.beside, site])

/-- The parent of a root is its directory. -/
theorem isDirectory : Path.IsDirectory (d.site root).parent root (d.site root).before :=
  Path.isDirectory_directory h.components_eq h.ne_dots.1

/-- A root and its parent start at one place. -/
theorem origin_parent : d.origin (d.site root).parent = d.origin root := by
  rw [Disk.origin, Disk.origin, h.isDirectory.isAbsolute_eq]

private theorem leads_parent : d.leads (d.site root).parent = (d.site root).place :=
  leads_directory h.components_eq h.ne_dots.1

/-- The path of the directory leads through the places above the root. -/
theorem mem_trail_parent (hq : q ≠ d.origin root) :
    q ∈ trail (d.origin (d.site root).parent) (Path.components (d.site root).parent) ↔
      q ∈ d.above root := by
  obtain ⟨core, dots, dots', hbefore, hparent, hdots⟩ := h.isDirectory.components
  rw [List.forall_mem_append] at hdots
  have habove : d.above root = trail (d.origin root) (d.site root).before := rfl
  rw [habove, h.origin_parent, hparent, hbefore, mem_trail_dots hdots.1 hq,
    mem_trail_dots hdots.2 hq]

private theorem passable_above :
    ∀ q ∈ d.above root, d.at? q = none ∨ d.at? q = some .directory := by
  intro q hq
  apply h.passable
  rw [h.components_eq, trail_append]
  exact List.mem_append_left _ hq

/-- Nothing but a directory is where a root leads. -/
theorem passable_root : d.at? (d.leads root) = none ∨ d.at? (d.leads root) = some .directory := by
  apply h.passable
  rw [h.leads_eq, h.components_eq, trail_append]
  refine List.mem_append_right _ (List.mem_singleton.mpr ?_)
  rw [step_of_name h.ne_dots.1 h.ne_dots.2]
  rfl

/-- Along the path of the directory, directories may be made. -/
theorem clear_parent : d.Clear (d.site root).parent where
  null := fun hnull => (h.isDirectory.chars _ hnull).elim h.null (by decide)
  short := Nat.lt_of_le_of_lt h.isDirectory.utf8ByteSize_le h.short
  trimmed := h.isDirectory.trimmed
  origin := by rw [h.origin_parent, h.origin]
  shortNames := by
    intro c hc
    obtain ⟨core, dots, dots', hbefore, hparent, hdots⟩ := h.isDirectory.components
    rw [List.forall_mem_append] at hdots
    rw [hparent] at hc
    rcases List.mem_append.mp hc with hc | hc
    · apply h.shortNames
      rw [h.components_eq, hbefore]
      simp [hc]
    · rw [hdots.2 c hc]
      decide
  passable := by
    intro q hq
    by_cases hstart : q = d.origin root
    · rw [hstart]
      exact .inr h.origin
    · exact h.passable_above q ((h.mem_trail_parent hstart).mp hq)

/-- The missing directories above the root are made. -/
theorem makeDirectories :
    ∃ d', (fileSystem.makeDirectories (d.site root).parent).run d = (.ok (), d') ∧
      d.Grown d' (d.above root) := by
  obtain ⟨d', hrun, hgrown⟩ := makeDirectories_grown h.wellFormed h.clear_parent
  refine ⟨d', hrun, hgrown.congr fun q hnone => h.mem_trail_parent ?_⟩
  rintro rfl
  rw [h.origin] at hnone
  cases hnone

/-- A name that no component has is no name that is made above the root. -/
theorem not_mem_above (hname : name ∉ Path.components root)
    (hnothing : d.at? ((d.site root).beside name) = none) :
    (d.site root).beside name ∉ d.above root := by
  intro hmem
  obtain ⟨init, names, hinit, hnames, heq⟩ := exists_of_mem_trail (List.mem_cons_of_mem _ hmem)
  rcases List.eq_nil_or_concat names with rfl | ⟨before, last, rfl⟩
  · -- What is above the origin is there.
    rw [List.append_nil] at heq
    obtain ⟨rest, hrest⟩ := hinit
    rw [heq] at hnothing
    have hbelow := h.wellFormed.empty_below hnothing ⟨rest, hrest⟩
    rw [h.origin] at hbelow
    cases hbelow
  · rw [List.concat_eq_append, ← List.append_assoc] at heq
    obtain ⟨-, rfl⟩ := List.append_singleton_inj.mp heq
    apply hname
    rw [h.components_eq]
    exact List.mem_append_left _ (hnames (by simp))

/-- Both ways to the directory of the root stay above the root. -/
theorem mem_ways (hq : q ∈ (d.site root).ways d) : q <+: d.origin root ∨ q ∈ d.above root := by
  rcases List.mem_append.mp hq with hq | hq
  · exact .inr hq
  have horigin : d.at? (d.origin (d.site root).parent) = some .directory := by
    rw [h.origin_parent, h.origin]
  rw [site_base] at hq
  have hcases := of_mem_trail_absolute h.wellFormed horigin hq
  rw [h.origin_parent] at hcases
  by_cases hstart : q = d.origin root
  · exact .inl (hstart ▸ List.prefix_refl q)
  · rw [← h.origin_parent, h.mem_trail_parent hstart, h.origin_parent] at hcases
    exact hcases

private theorem apart_ways :
    ∀ q ∈ (d.site root).ways d, ¬(d.site root).beside (d.site root).name <+: q := by
  rw [← h.leads_eq]
  intro q hq hbelow
  rcases h.mem_ways hq with hpre | habove
  · exact h.not_below _ (List.mem_cons_self ..) (hbelow.trans hpre)
  · exact h.not_below q (List.mem_cons_of_mem _ habove) hbelow

/-- When the directories above it are there, a root is ready. -/
theorem ready (hgrown : d.Grown d' (d.above root)) :
    d'.Ready (d.site root) [(d.site root).name] := by
  have horigin : d'.at? (d'.origin (d.site root).parent) = some .directory := by
    rw [hgrown.origin_eq, h.origin_parent]
    exact hgrown.at?_directory h.origin
  have habove : d'.Open (d.above root) := hgrown.open_of_pass h.passable_above
  have hparent : d'.Open
      (trail (d'.origin (d.site root).parent) (Path.components (d.site root).parent)) := by
    rw [hgrown.origin_eq]
    intro q hq
    by_cases hstart : q = d.origin root
    · rw [hstart]
      exact hgrown.at?_directory h.origin
    · exact habove q ((h.mem_trail_parent hstart).mp hq)
  have habsolute : d'.absolute (d.site root).parent = (d.site root).base := by
    rw [site_base, absolute, absolute, hgrown.current]
  have hbase := base_absolute hgrown.wellFormed horigin h.clear_parent.null hparent
  rw [habsolute, hgrown.leads_eq, h.leads_parent] at hbase
  have hways : (d.site root).ways d' = (d.site root).ways d := by
    rw [Site.ways, Site.ways, hgrown.origin_eq]
  have hopen : d'.Open ((d.site root).ways d) := by
    rw [← hways]
    intro q hq
    rcases List.mem_append.mp hq with hq | hq
    · rw [hgrown.origin_eq] at hq
      exact habove q hq
    · exact hbase.opened q hq
  exact
    { wellFormed := hgrown.wellFormed
      isPath := h.isPath
      isName := h.isName
      leads := by rw [hgrown.origin_eq]; rfl
      absolute := habsolute
      base := hbase
      opened := hways ▸ hopen
      apart := fun q hq => List.forall_mem_singleton.mpr (h.apart_ways q (hways ▸ hq)) }

end Replaceable

end ApiTypings.Disk
