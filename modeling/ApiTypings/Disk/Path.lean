import ApiTypings.Text.Cut

/-!
# Paths

Paths are texts with components between slashes. Joining replaces a path by an absolute one;
the parent of a path is what stands before its last component, without the slashes and lone dots
that lead up to that component. A dot that a relative path starts with counts as a component.
The names of temporary directories are a stem and an ending that is drawn at random.
-/

namespace ApiTypings

/-- What the name of a temporary directory ends in: six letters or digits. -/
structure Ending where
  text : String
  length_text : text.length = 6
  alphanumeric : ∀ c ∈ text.toList, c.isAlphanum = true

/-- The last six decimal digits of a number. -/
def Ending.sixDigits (number : Nat) : List Char :=
  [number / 100000, number / 10000, number / 1000, number / 100, number / 10, number].map
    fun n => Nat.digitChar (n % 10)

/-- The ending made of the last six digits of a number. -/
def Ending.ofNumber (number : Nat) : Ending where
  text := String.ofList (sixDigits number)
  length_text := by simp [sixDigits]
  alphanumeric := by
    have hdigit : ∀ digit < 10, (Nat.digitChar digit).isAlphanum = true := by decide
    rw [String.toList_ofList]
    intro c hc
    obtain ⟨n, -, rfl⟩ := List.mem_map.mp hc
    exact hdigit _ (Nat.mod_lt _ (by decide))

namespace Path

/-- Whether a path starts at the root. -/
def isAbsolute (path : String) : Bool := Text.startsWith ['/'] path.toList

/-- `path`, taken from the directory `base`. -/
def join (base path : String) : String :=
  if isAbsolute path || base = "" then path
  else if base.toList.getLast? = some '/' then base ++ path
  else base ++ "/" ++ path

/-- The components of a path. -/
def components (path : String) : List String :=
  ((Text.split '/' path.toList).filter (· ≠ [])).map String.ofList

/-- The name of a temporary directory. -/
def temporaryName (stem : String) (ending : Ending) : String := stem ++ ending.text

/-- The start of a path that its components are counted after: the root, or a leading dot. -/
def head (path : List Char) : List Char × List Char :=
  match path with
  | '/' :: rest => (['/'], rest)
  | ['.'] => (['.'], [])
  | '.' :: '/' :: rest => (['.'], '/' :: rest)
  | _ => ([], path)

/-- Whether a piece between slashes is no component of its own. -/
def isFiller (piece : List Char) : Bool := piece = [] || piece = ['.']

/-- The pieces without the fillers at their end. -/
def dropFillers (pieces : List (List Char)) : List (List Char) :=
  (pieces.reverse.dropWhile isFiller).reverse

/-- The path without its last component; the root and the empty path have no parent. -/
def parent? (path : String) : Option String :=
  let (start, body) := head path.toList
  match dropFillers (Text.split '/' body) with
  | [] => if start = ['.'] then some "" else none
  | pieces =>
    let kept := dropFillers pieces.dropLast
    some (String.ofList start ++ Text.join "/" (kept.map String.ofList))

/-- The directory that a path stands in, the current one if the path has no parent of its own. -/
def directory (path : String) : String :=
  match parent? path with
  | some parent => if parent = "" then "." else parent
  | none => "."

end Path

end ApiTypings
