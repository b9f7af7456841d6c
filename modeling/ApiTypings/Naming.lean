import ApiTypings.Identity
import ApiTypings.TypeScript.Names

/-!
# Names of declarations and files

A type is declared under its simple name, made plain, in a file of that name. The client
contract has a file of its own. Since namespaces and arities are not part of a file name, two
types may claim one file; `checkFilenames` finds the first such clash.
-/

namespace ApiTypings

/-- The interface that every controller sends its requests through. -/
def contractName : String := "IRestApi"

/-- The options that every request accepts. -/
def requestConfigName : String := "RequestConfig"

/-- The file that declares the contract. -/
def contractFilename : String := "IRestApi.ts"

/-- The name under which a type is declared. -/
def Identity.declaredName (id : Identity) : String := TypeScript.identifier id.name

/-- The file that declares a type. -/
def Identity.filename (id : Identity) : String := id.declaredName ++ ".ts"

/-- What a file name belongs to. -/
inductive FileOwner where
  | contract
  | type (id : Identity)
  deriving DecidableEq, Repr

/-- The displayed form of an owner. -/
def FileOwner.display : FileOwner → String
  | contract => contractName ++ " contract"
  | type id => id.display

/-- Two owners of one file, the second of which came later. -/
structure Collision where
  filename : String
  first : FileOwner
  second : Identity
  deriving DecidableEq, Repr

/-- The wording of a collision. -/
def Collision.message (c : Collision) : String :=
  "`" ++ c.first.display ++ "` and `" ++ c.second.display ++ "` would both be written to `" ++
    c.filename ++ "`"

/-- Gives each identity its file, as long as nobody in `owners` has it. -/
def claimFilenames (owners : List (String × FileOwner)) : List Identity → Except Collision Unit
  | [] => .ok ()
  | id :: ids =>
    match owners.lookup id.filename with
    | some first => .error ⟨id.filename, first, id⟩
    | none => claimFilenames (owners ++ [(id.filename, .type id)]) ids

/-- Fails at the first identity whose file belongs to an earlier one or to the contract. -/
def checkFilenames (ids : List Identity) : Except Collision Unit :=
  claimFilenames [(contractFilename, .contract)] ids

end ApiTypings
