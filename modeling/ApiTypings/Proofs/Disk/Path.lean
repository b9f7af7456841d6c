import ApiTypings.Disk.Path
import Mathlib.Data.List.DropRight
import Mathlib.Data.List.Infix

/-!
# Components of paths

Joining two paths joins their components. A path whose last component is no single dot has a parent,
which starts as the path does, is shorter, and has the components before the last one, up to single
dots at their end.
-/

namespace ApiTypings

namespace Text

variable {sep c : Char} {xs ys cs piece : List Char}

private theorem split_cons_self (sep : Char) (cs : List Char) :
    split sep (sep :: cs) = [] :: split sep cs := by
  rw [split, if_pos rfl]

/-- A character other than the separator goes to the first piece. -/
theorem exists_split_cons (h : c ≠ sep) (cs : List Char) : ∃ piece pieces,
    split sep cs = piece :: pieces ∧ split sep (c :: cs) = (c :: piece) :: pieces := by
  induction cs generalizing c with
  | nil => exact ⟨[], [], rfl, by rw [split, if_neg h]; rfl⟩
  | cons d ds ih =>
    by_cases hd : d = sep
    · subst hd
      refine ⟨[], split d ds, split_cons_self d ds, ?_⟩
      rw [split, if_neg h, split_cons_self]
    · obtain ⟨piece, pieces, _, hcons⟩ := ih hd
      refine ⟨d :: piece, pieces, hcons, ?_⟩
      rw [split, if_neg h, hcons]

private theorem split_ne_nil (sep : Char) (cs : List Char) : split sep cs ≠ [] := by
  cases cs with
  | nil => exact List.cons_ne_nil _ _
  | cons c cs =>
    by_cases hc : c = sep
    · subst hc
      rw [split_cons_self]
      exact List.cons_ne_nil _ _
    · obtain ⟨piece, pieces, _, hcons⟩ := exists_split_cons hc cs
      rw [hcons]
      exact List.cons_ne_nil _ _

/-- A text is split at each separator on its own. -/
theorem split_append_cons (sep : Char) (xs ys : List Char) :
    split sep (xs ++ sep :: ys) = split sep xs ++ split sep ys := by
  induction xs with
  | nil => exact split_cons_self sep ys
  | cons c cs ih =>
    rw [List.cons_append]
    by_cases hc : c = sep
    · subst hc
      rw [split_cons_self, split_cons_self, ih, List.cons_append]
    · obtain ⟨piece, pieces, hsplit, hcons⟩ := exists_split_cons hc cs
      rw [hsplit] at ih
      rw [split, if_neg hc, ih, hcons]
      rfl

/-- A text without the separator is one piece. -/
theorem split_of_not_mem (h : sep ∉ xs) : split sep xs = [xs] := by
  induction xs with
  | nil => rfl
  | cons c cs ih =>
    rw [List.mem_cons, not_or] at h
    rw [split, if_neg (Ne.symm h.1), ih h.2]

/-- A piece holds no separator, and its characters are those of the text. -/
theorem of_mem_split (h : piece ∈ split sep cs) : sep ∉ piece ∧ piece ⊆ cs := by
  induction cs generalizing piece with
  | nil =>
    obtain rfl := List.mem_singleton.mp h
    exact ⟨List.not_mem_nil, List.nil_subset _⟩
  | cons c cs ih =>
    by_cases hc : c = sep
    · subst hc
      rw [split_cons_self] at h
      rcases List.mem_cons.mp h with rfl | h
      · exact ⟨List.not_mem_nil, List.nil_subset _⟩
      · exact ⟨(ih h).1, List.subset_cons_of_subset c (ih h).2⟩
    · obtain ⟨first, pieces, hsplit, hcons⟩ := exists_split_cons hc cs
      rw [hcons] at h
      rcases List.mem_cons.mp h with rfl | h
      · have hfirst := ih (hsplit ▸ List.mem_cons_self ..)
        refine ⟨?_, List.cons_subset_cons c hfirst.2⟩
        rw [List.mem_cons, not_or]
        exact ⟨Ne.symm hc, hfirst.1⟩
      · have hpiece := ih (hsplit ▸ List.mem_cons_of_mem _ h)
        exact ⟨hpiece.1, List.subset_cons_of_subset c hpiece.2⟩

/-- Pieces one after the other, with a separator between two neighbours. -/
def between (sep : Char) : List (List Char) → List Char
  | [] => []
  | [piece] => piece
  | piece :: next :: pieces => piece ++ sep :: between sep (next :: pieces)

private theorem toList_join (sep : Char) (pieces : List (List Char)) :
    (join (String.singleton sep) (pieces.map String.ofList)).toList = between sep pieces := by
  fun_induction between sep pieces with
  | case1 => rfl
  | case2 piece => exact String.toList_ofList
  | case3 piece next pieces ih =>
    rw [← ih]
    simp [join]

private theorem between_append {ps qs : List (List Char)} (hp : ps ≠ []) (hq : qs ≠ []) :
    between sep (ps ++ qs) = between sep ps ++ sep :: between sep qs := by
  induction ps with
  | nil => exact absurd rfl hp
  | cons p ps ih =>
    cases ps with
    | nil =>
      obtain ⟨q, qs, rfl⟩ := List.exists_cons_of_ne_nil hq
      rfl
    | cons p' ps =>
      have hrest := ih (List.cons_ne_nil p' ps)
      rw [List.cons_append, List.cons_append, between, between, List.append_assoc,
        List.cons_append, ← hrest]
      rfl

/-- Putting the pieces of a text together gives the text. -/
theorem between_split (sep : Char) (cs : List Char) : between sep (split sep cs) = cs := by
  induction cs with
  | nil => rfl
  | cons c cs ih =>
    by_cases hc : c = sep
    · subst hc
      obtain ⟨piece, pieces, hsplit⟩ := List.exists_cons_of_ne_nil (split_ne_nil c cs)
      rw [split_cons_self, hsplit, between, List.nil_append, ← hsplit, ih]
    · obtain ⟨piece, pieces, hsplit, hcons⟩ := exists_split_cons hc cs
      rw [hsplit] at ih
      rw [hcons, ← ih]
      cases pieces <;> rfl

/-- Pieces without separators are found again. -/
theorem split_between {pieces : List (List Char)} (hne : pieces ≠ [])
    (h : ∀ piece ∈ pieces, sep ∉ piece) : split sep (between sep pieces) = pieces := by
  fun_induction between sep pieces with
  | case1 => exact absurd rfl hne
  | case2 piece => exact split_of_not_mem (h piece (List.mem_singleton_self _))
  | case3 piece next pieces ih =>
    rw [List.forall_mem_cons] at h
    rw [split_append_cons, split_of_not_mem h.1, ih (List.cons_ne_nil next pieces) h.2]
    rfl

end Text

namespace Path

/-- The components that pieces between slashes stand for. -/
def named (pieces : List (List Char)) : List String :=
  (pieces.filter (· ≠ [])).map String.ofList

/-- The components of a path are its pieces that are not empty. -/
theorem components_eq (path : String) :
    components path = named (Text.split '/' path.toList) := rfl

private theorem named_append (ps qs : List (List Char)) :
    named (ps ++ qs) = named ps ++ named qs := by
  rw [named, List.filter_append, List.map_append]
  rfl

private theorem named_nil_cons (ps : List (List Char)) : named ([] :: ps) = named ps := rfl

private theorem named_singleton {piece : List Char} (h : piece ≠ []) :
    named [piece] = [String.ofList piece] := by
  rw [named, List.filter_cons_of_pos (by simpa using h)]
  rfl

/-- A component is not empty, and its characters are those of the path, without slashes. -/
theorem of_mem_components {path component : String} (h : component ∈ components path) :
    component ≠ "" ∧ '/' ∉ component.toList ∧ component.toList ⊆ path.toList := by
  obtain ⟨piece, hpiece, rfl⟩ := List.mem_map.mp h
  rw [List.mem_filter, decide_eq_true_iff] at hpiece
  obtain ⟨hslash, hsub⟩ := Text.of_mem_split hpiece.1
  rw [String.toList_ofList]
  refine ⟨?_, hslash, hsub⟩
  intro hempty
  exact hpiece.2 (by rw [← String.toList_ofList (l := piece), hempty]; rfl)

/-- A name is its own only component. -/
theorem components_of_name {name : String} (hempty : name ≠ "") (hslash : '/' ∉ name.toList) :
    components name = [name] := by
  have hne : name.toList ≠ [] := fun h => hempty (String.toList_eq_nil_iff.mp h)
  rw [components_eq, Text.split_of_not_mem hslash, named_singleton hne, String.ofList_toList]

/-- A path is absolute when it starts with a slash. -/
theorem isAbsolute_iff {path : String} : isAbsolute path = true ↔ path.toList.head? = some '/' := by
  rw [isAbsolute, Text.startsWith]
  cases path.toList with
  | nil => simp
  | cons c cs =>
    rw [List.isPrefixOf_iff_prefix, List.cons_prefix_cons, List.head?_cons, Option.some_inj]
    exact ⟨fun h => h.1.symm, fun h => ⟨h.symm, List.nil_prefix⟩⟩

/-- Joining puts the components of a relative path behind those of the base. -/
theorem components_join {base path : String} (hrelative : isAbsolute path = false)
    (hbase : base ≠ "") : components (join base path) = components base ++ components path := by
  rw [join, hrelative, Bool.false_or, if_neg (by simpa using hbase)]
  split
  · next hlast =>
    obtain ⟨start, hstart⟩ := List.getLast?_eq_some_iff.mp hlast
    have hjoin : (base ++ path).toList = start ++ '/' :: path.toList := by
      rw [String.toList_append, hstart, List.append_assoc]
      rfl
    rw [components_eq, components_eq base, components_eq path, hjoin, hstart,
      Text.split_append_cons, Text.split_append_cons, named_append, named_append]
    exact congrArg (· ++ _) (List.append_nil _).symm
  · have hjoin : (base ++ "/" ++ path).toList = base.toList ++ '/' :: path.toList := by
      rw [String.toList_append, String.toList_append, List.append_assoc]
      rfl
    rw [components_eq, hjoin, Text.split_append_cons, named_append]
    rfl

/-- A relative path is joined to a base with one slash. -/
theorem join_of_relative {base path : String} (hrelative : isAbsolute path = false)
    (hbase : base ≠ "") : join base path =
      (if base.toList.getLast? = some '/' then base else base ++ "/") ++ path := by
  rw [join, hrelative, Bool.false_or, if_neg (by simpa using hbase)]
  split <;> rfl

/-- A joined path has no other characters than its parts and slashes. -/
theorem mem_join {base path : String} {c : Char} (h : c ∈ (join base path).toList) :
    c ∈ base.toList ∨ c = '/' ∨ c ∈ path.toList := by
  rw [join] at h
  split at h
  · exact .inr (.inr h)
  · split at h
    · rw [String.toList_append, List.mem_append] at h
      exact h.imp_right .inr
    · rw [String.toList_append, String.toList_append, List.mem_append, List.mem_append] at h
      rcases h with (h | h) | h
      · exact .inl h
      · exact .inr (.inl (List.mem_singleton.mp h))
      · exact .inr (.inr h)

/-- The base of a joined path is in it. -/
theorem subset_join {base path : String} (hrelative : isAbsolute path = false) (hbase : base ≠ "") :
    base.toList ⊆ (join base path).toList := by
  rw [join_of_relative hrelative hbase, String.toList_append]
  split
  · exact List.subset_append_left _ _
  · rw [String.toList_append, List.append_assoc]
    exact List.subset_append_left _ _

/-- A path taken from an absolute one is absolute. -/
theorem isAbsolute_join {base : String} (h : isAbsolute base = true) (path : String) :
    isAbsolute (join base path) = true := by
  cases hrelative : isAbsolute path with
  | true =>
    rw [join, hrelative, Bool.true_or, if_pos rfl]
    exact hrelative
  | false =>
    have hhead := isAbsolute_iff.mp h
    obtain ⟨cs, hcs⟩ := List.head?_eq_some_iff.mp hhead
    have hne : base ≠ "" := by
      rintro rfl
      cases hcs
    rw [join_of_relative hrelative hne, isAbsolute_iff, String.toList_append]
    split
    · rw [hcs]
      rfl
    · rw [String.toList_append, hcs]
      rfl

/-- A longer relative path gives a longer joined one. -/
theorem utf8ByteSize_join_le {base path path' : String} (hrelative : isAbsolute path = false)
    (hrelative' : isAbsolute path' = false) (h : path.utf8ByteSize ≤ path'.utf8ByteSize) :
    (join base path).utf8ByteSize ≤ (join base path').utf8ByteSize := by
  by_cases hne : base = ""
  · rw [join, join, hne]
    simpa using h
  · rw [join_of_relative hrelative hne, join_of_relative hrelative' hne,
      String.utf8ByteSize_append, String.utf8ByteSize_append]
    exact Nat.add_le_add_left h _

/-- A joined path is at most one character longer than its parts. -/
theorem utf8ByteSize_join_le_add (base path : String) :
    (join base path).utf8ByteSize ≤ base.utf8ByteSize + 1 + path.utf8ByteSize := by
  have hslash : "/".utf8ByteSize = 1 := rfl
  rw [join]
  split
  · exact Nat.le_add_left ..
  · split <;> simp only [String.utf8ByteSize_append, hslash] <;> omega

/-- A slash before names and between them leads to these names. -/
theorem components_slash_join {names : List String}
    (h : ∀ name ∈ names, name ≠ "" ∧ '/' ∉ name.toList) :
    components ("/" ++ Text.join "/" names) = names := by
  by_cases hnil : names = []
  · subst hnil
    rfl
  have hpieces : (names.map String.toList).map String.ofList = names := by
    have hid : String.ofList ∘ String.toList = id := funext fun s => String.ofList_toList
    rw [List.map_map, hid, List.map_id]
  have hjoin : ("/" ++ Text.join "/" names).toList =
      '/' :: Text.between '/' (names.map String.toList) := by
    rw [← Text.toList_join, hpieces, String.toList_append]
    rfl
  have hslash : ∀ piece ∈ names.map String.toList, '/' ∉ piece := by
    intro piece hpiece
    obtain ⟨name, hname, rfl⟩ := List.mem_map.mp hpiece
    exact (h name hname).2
  have hkept : (names.map String.toList).filter (· ≠ []) = names.map String.toList := by
    rw [List.filter_eq_self]
    intro piece hpiece
    obtain ⟨name, hname, rfl⟩ := List.mem_map.mp hpiece
    rw [decide_eq_true_iff]
    exact fun hempty => (h name hname).1 (String.toList_eq_nil_iff.mp hempty)
  rw [components_eq, hjoin, Text.split_cons_self,
    Text.split_between (by simpa using hnil) hslash, named_nil_cons, named, hkept, hpieces]

/-! ## Parents -/

private theorem exists_fillers (pieces : List (List Char)) : ∃ fillers,
    pieces = dropFillers pieces ++ fillers ∧ ∀ piece ∈ fillers, isFiller piece = true := by
  refine ⟨(pieces.reverse.takeWhile isFiller).reverse, ?_, ?_⟩
  · rw [dropFillers, ← List.reverse_append, List.takeWhile_append_dropWhile, List.reverse_reverse]
  · intro piece hpiece
    exact List.mem_takeWhile_imp (List.mem_reverse.mp hpiece)

private theorem not_isFiller_of_dropFillers {pieces init : List (List Char)} {piece : List Char}
    (h : dropFillers pieces = init ++ [piece]) : isFiller piece = false := by
  have hdrop : pieces.rdropWhile isFiller = init ++ [piece] := h
  have hne : pieces.rdropWhile isFiller ≠ [] := by simp [hdrop]
  have hlast := List.rdropWhile_last_not isFiller pieces hne
  simp only [hdrop, List.getLast_concat] at hlast
  exact Bool.not_eq_true _ ▸ hlast

private theorem isFiller_eq_false_iff {piece : List Char} :
    isFiller piece = false ↔ piece ≠ [] ∧ String.ofList piece ≠ "." := by
  have hdot : String.ofList piece = "." ↔ piece = ['.'] := by
    constructor
    · intro h
      rw [← String.toList_ofList (l := piece), h]
      rfl
    · rintro rfl
      rfl
  rw [isFiller, Bool.or_eq_false_iff, decide_eq_false_iff_not, decide_eq_false_iff_not, Ne, Ne,
    hdot]

private theorem eq_dot_of_mem_named {pieces : List (List Char)}
    (h : ∀ piece ∈ pieces, isFiller piece = true) {component : String}
    (hc : component ∈ named pieces) : component = "." := by
  obtain ⟨piece, hpiece, rfl⟩ := List.mem_map.mp hc
  rw [List.mem_filter, decide_eq_true_iff] at hpiece
  by_contra hdot
  have hfiller := isFiller_eq_false_iff.mpr ⟨hpiece.2, hdot⟩
  rw [h piece hpiece.1] at hfiller
  cases hfiller

/-- What the start of a path may be, before a body. -/
def IsStart (start body : List Char) : Prop :=
  start = ['/'] ∨ start = [] ∨ start = ['.'] ∧ (body = [] ∨ ∃ rest, body = '/' :: rest)

private theorem exists_start (cs : List Char) : ∃ start body,
    head cs = (start, body) ∧ cs = start ++ body ∧ IsStart start body := by
  fun_cases head cs with
  | case1 rest => exact ⟨['/'], rest, rfl, rfl, .inl rfl⟩
  | case2 => exact ⟨['.'], [], rfl, rfl, .inr (.inr ⟨rfl, .inl rfl⟩)⟩
  | case3 rest => exact ⟨['.'], '/' :: rest, rfl, rfl, .inr (.inr ⟨rfl, .inr ⟨rest, rfl⟩⟩)⟩
  | case4 => exact ⟨[], cs, rfl, rfl, .inr (.inl rfl)⟩

/-- A start adds a component only if it is a dot. -/
theorem named_split_start {start body : List Char} (h : IsStart start body) :
    named (Text.split '/' (start ++ body)) =
      (if start = ['.'] then ["."] else []) ++ named (Text.split '/' body) := by
  rcases h with rfl | rfl | ⟨rfl, rfl | ⟨rest, rfl⟩⟩
  · rw [List.singleton_append, Text.split_cons_self]
    rfl
  · rfl
  · rfl
  · rw [Text.split_append_cons, named_append, Text.split_cons_self]
    rfl

/-- A path that is empty, a slash or a dot, or ends in a component that is no single dot. -/
def Trimmed (path : String) : Prop :=
  components path = [] ∨ components path = ["."] ∨
    ∃ cs last, components path = cs ++ [last] ∧ last ≠ "."

/-- The parent of a path with components `cs` before the last. -/
structure IsParent (parent path : String) (cs : List String) : Prop where
  components : ∃ dots, cs = components parent ++ dots ∧ ∀ c ∈ dots, c = "."
  isPrefix : parent.toList <+: path.toList
  shorter : parent.length < path.length
  trimmed : Trimmed parent
  absolute : isAbsolute path = true → isAbsolute parent = true

/-- What is kept of the pieces of a body before its last component, as a path of its own. -/
theorem components_kept {start body : List Char} (hstart : IsStart start body)
    {kept rest : List (List Char)} (hbody : Text.split '/' body = kept ++ rest)
    (hkept : ∀ init piece, kept = init ++ [piece] → isFiller piece = false) :
    components (String.ofList (start ++ Text.between '/' kept)) =
      (if start = ['.'] then ["."] else []) ++ named kept := by
  have hsplit : named (Text.split '/' (Text.between '/' kept)) = named kept := by
    by_cases hnil : kept = []
    · subst hnil
      rfl
    · rw [Text.split_between hnil]
      intro piece hpiece
      exact (Text.of_mem_split (hbody ▸ List.mem_append_left _ hpiece)).1
  have hstart' : IsStart start (Text.between '/' kept) := by
    rcases hstart with h | h | ⟨h, hdot⟩
    · exact .inl h
    · exact .inr (.inl h)
    · refine .inr (.inr ⟨h, ?_⟩)
      have hhead : ∀ piece pieces, kept = piece :: pieces → piece = [] := by
        rintro piece pieces rfl
        rcases hdot with rfl | ⟨tail, rfl⟩
        · exact (List.cons.inj hbody).1.symm
        · rw [Text.split_cons_self] at hbody
          exact (List.cons.inj hbody).1.symm
      cases kept with
      | nil => exact .inl rfl
      | cons piece pieces =>
        rw [hhead piece pieces rfl] at hkept ⊢
        cases pieces with
        | nil => exact Bool.noConfusion (hkept [] [] rfl)
        | cons next pieces => exact .inr ⟨_, rfl⟩
  rw [components_eq, String.toList_ofList, named_split_start hstart', hsplit]

/-- The kept pieces are a start of the body, and not all of it. -/
theorem exists_tail {body : List Char} {kept rest : List (List Char)}
    (hbody : Text.split '/' body = kept ++ rest) (hrest : named rest ≠ []) :
    ∃ tail ≠ [], body = Text.between '/' kept ++ tail := by
  have hjoin := Text.between_split '/' body
  rw [hbody] at hjoin
  by_cases hnil : kept = []
  · subst hnil
    refine ⟨body, ?_, rfl⟩
    rintro rfl
    rw [← List.nil_append rest, ← hbody] at hrest
    exact hrest rfl
  · have hne : rest ≠ [] := by
      rintro rfl
      exact hrest rfl
    rw [Text.between_append hnil hne] at hjoin
    exact ⟨_, List.cons_ne_nil _ _, hjoin.symm⟩

/-- The parent of a path is what stands before its last piece that is no filler. -/
theorem parent?_eq {path : String} {start body piece : List Char} {init : List (List Char)}
    (hhead : head path.toList = (start, body))
    (h : dropFillers (Text.split '/' body) = init ++ [piece]) :
    parent? path = some (String.ofList (start ++ Text.between '/' (dropFillers init))) := by
  have hjoin : Text.join "/" ((dropFillers init).map String.ofList) =
      String.ofList (Text.between '/' (dropFillers init)) := by
    rw [← Text.toList_join, String.ofList_toList]
    rfl
  rw [parent?, hhead]
  dsimp only
  split
  · next hnil =>
    rw [h] at hnil
    simp at hnil
  · rw [h, List.dropLast_concat, hjoin, String.ofList_append]

/-- A last component other than a single dot is the last piece that is no filler. -/
theorem exists_last_piece {path last : String} {cs : List String} {start body : List Char}
    (h : components path = cs ++ [last]) (hlast : last ≠ ".") (hpath : path.toList = start ++ body)
    (hstart : IsStart start body) :
    ∃ init piece fillers, dropFillers (Text.split '/' body) = init ++ [piece] ∧
      Text.split '/' body = init ++ [piece] ++ fillers ∧
      cs = (if start = ['.'] then ["."] else []) ++ named init := by
  obtain ⟨fillers, hpieces, hfillers⟩ := exists_fillers (Text.split '/' body)
  rw [components_eq, hpath, named_split_start hstart, hpieces, named_append,
    ← List.append_assoc] at h
  have hno : named fillers = [] := by
    rcases List.eq_nil_or_concat (named fillers) with hnil | ⟨dots, dot, hdots⟩
    · exact hnil
    · rw [hdots, List.concat_eq_append, ← List.append_assoc] at h
      have hdot : dot = "." := eq_dot_of_mem_named hfillers (by simp [hdots])
      exact absurd ((List.append_singleton_inj.mp h).2 ▸ hdot) hlast
  rw [hno, List.append_nil] at h
  rcases List.eq_nil_or_concat (dropFillers (Text.split '/' body)) with hnil | ⟨init, piece, hinit⟩
  · have hmem : last ∈ (if start = ['.'] then ["."] else []) := by
      rw [hnil] at h
      change _ ++ [] = _ at h
      rw [List.append_nil] at h
      rw [h]
      exact List.mem_append_right _ (List.mem_singleton_self _)
    split at hmem
    · exact absurd (List.mem_singleton.mp hmem) hlast
    · cases hmem
  · rw [List.concat_eq_append] at hinit
    have hpiece := isFiller_eq_false_iff.mp (not_isFiller_of_dropFillers hinit)
    rw [hinit, named_append, named_singleton hpiece.1, ← List.append_assoc] at h
    exact ⟨init, piece, fillers, hinit, by rw [← hinit, ← hpieces],
      (List.append_singleton_inj.mp h).1.symm⟩

/-- Without fillers at its end, what is kept is trimmed. -/
theorem trimmed_of_components {path : String} {start : List Char} {pieces : List (List Char)}
    (h : components path =
      (if start = ['.'] then ["."] else []) ++ named (dropFillers pieces)) : Trimmed path := by
  rw [Trimmed, h]
  rcases List.eq_nil_or_concat (dropFillers pieces) with hnil | ⟨before, final, hfinal⟩
  · rw [hnil]
    by_cases hdot : start = ['.']
    · rw [if_pos hdot]
      exact .inr (.inl rfl)
    · rw [if_neg hdot]
      exact .inl rfl
  · rw [List.concat_eq_append] at hfinal
    have hname := isFiller_eq_false_iff.mp (not_isFiller_of_dropFillers hfinal)
    rw [hfinal, named_append, named_singleton hname.1, ← List.append_assoc]
    exact .inr (.inr ⟨_, _, rfl, hname.2⟩)

/-- A path that ends in a component other than a single dot has a parent. -/
theorem exists_parent {path last : String} {cs : List String}
    (h : components path = cs ++ [last]) (hlast : last ≠ ".") :
    ∃ parent, parent? path = some parent ∧ IsParent parent path cs := by
  obtain ⟨start, body, hhead, hpath, hstart⟩ := exists_start path.toList
  obtain ⟨init, piece, fillers, hinit, hpieces, hcs⟩ := exists_last_piece h hlast hpath hstart
  have hpiece := isFiller_eq_false_iff.mp (not_isFiller_of_dropFillers hinit)
  obtain ⟨dots, hkept, hdots⟩ := exists_fillers init
  have hsplit : Text.split '/' body = dropFillers init ++ (dots ++ [piece] ++ fillers) := by
    rw [hpieces]
    nth_rewrite 1 [hkept]
    simp only [List.append_assoc]
  have hcomponents := components_kept hstart hsplit fun _ _ => not_isFiller_of_dropFillers
  have hrest : named (dots ++ [piece] ++ fillers) ≠ [] := by
    rw [named_append, named_append, named_singleton hpiece.1]
    simp
  obtain ⟨tail, htail, hbody⟩ := exists_tail hsplit hrest
  refine ⟨_, parent?_eq hhead hinit, ?_, ?_, ?_, trimmed_of_components hcomponents, ?_⟩
  · refine ⟨named dots, ?_, fun c => eq_dot_of_mem_named hdots⟩
    rw [hcomponents, hcs, List.append_assoc, ← named_append, ← hkept]
  · rw [String.toList_ofList, hpath, hbody, ← List.append_assoc]
    exact List.prefix_append ..
  · have hlength := List.length_pos_iff.mpr htail
    rw [← String.length_toList, ← String.length_toList, String.toList_ofList, hpath, hbody]
    simp only [List.length_append]
    omega
  · rw [isAbsolute_iff, isAbsolute_iff, List.head?_eq_some_iff]
    rintro ⟨rest, hrest⟩
    rw [hrest] at hhead
    obtain ⟨rfl, -⟩ := Prod.mk.inj hhead
    rw [String.toList_ofList]
    rfl

namespace IsParent

variable {parent path : String} {cs : List String} (h : IsParent parent path cs)

include h

/-- A parent that is not empty starts where the path does. -/
theorem isAbsolute_eq (hne : parent ≠ "") : isAbsolute parent = isAbsolute path := by
  obtain ⟨tail, htail⟩ := h.isPrefix
  have hlist : parent.toList ≠ [] := fun hnil => hne (String.toList_eq_nil_iff.mp hnil)
  rw [Bool.eq_iff_iff, isAbsolute_iff, isAbsolute_iff, ← htail, List.head?_append_of_ne_nil _ hlist]

/-- The parent of a path is no longer than the path. -/
theorem utf8ByteSize_le : parent.utf8ByteSize ≤ path.utf8ByteSize := by
  obtain ⟨tail, htail⟩ := h.isPrefix
  have hpath : path = parent ++ String.ofList tail := by
    rw [← String.ofList_toList (s := path), ← htail, String.ofList_append, String.ofList_toList]
  rw [hpath, String.utf8ByteSize_append]
  exact Nat.le_add_right ..

end IsParent

/-- The directory in which a path with components `cs` before the last stands. -/
structure IsDirectory (directory path : String) (cs : List String) : Prop where
  components : ∃ core dots dots', cs = core ++ dots ∧ components directory = core ++ dots' ∧
    ∀ c ∈ dots ++ dots', c = "."
  chars : ∀ c ∈ directory.toList, c ∈ path.toList ∨ c = '.'
  utf8ByteSize_le : directory.utf8ByteSize ≤ path.utf8ByteSize
  trimmed : Trimmed directory
  isAbsolute_eq : isAbsolute directory = isAbsolute path

/-- A path that ends in a component other than a single dot stands in the directory of its parent,
or in the one that relative paths start from. -/
theorem isDirectory_directory {path last : String} {cs : List String}
    (h : components path = cs ++ [last]) (hlast : last ≠ ".") :
    IsDirectory (directory path) path cs := by
  obtain ⟨parent, hparent?, hparent⟩ := exists_parent h hlast
  obtain ⟨dots, hcs, hdots⟩ := hparent.components
  by_cases hempty : parent = ""
  · have hdirectory : directory path = "." := by rw [directory, hparent?]; exact if_pos hempty
    have hrelative : isAbsolute path = false := by
      rw [← Bool.not_eq_true]
      intro habsolute
      exact absurd (hparent.absolute habsolute) (by rw [hempty]; decide)
    have hpos : 0 < path.utf8ByteSize := by
      rw [Nat.pos_iff_ne_zero, Ne, String.utf8ByteSize_eq_zero_iff]
      rintro rfl
      exact absurd h (by simp [show components "" = [] from rfl])
    have hcs' : cs = dots := by rw [hcs, hempty]; rfl
    rw [hdirectory]
    exact
      { components := ⟨[], dots, ["."], hcs', rfl, by simpa [or_imp, forall_and] using hdots⟩
        chars := fun c hc => .inr (List.mem_singleton.mp hc)
        utf8ByteSize_le := hpos
        trimmed := .inr (.inl rfl)
        isAbsolute_eq := hrelative.symm }
  · have hdirectory : directory path = parent := by rw [directory, hparent?]; exact if_neg hempty
    rw [hdirectory]
    exact
      { components := ⟨components parent, dots, [], hcs, (List.append_nil _).symm, by simpa⟩
        chars := fun c hc => .inl (hparent.isPrefix.subset hc)
        utf8ByteSize_le := hparent.utf8ByteSize_le
        trimmed := hparent.trimmed
        isAbsolute_eq := hparent.isAbsolute_eq hempty }

end Path

end ApiTypings
