import ApiTypings.Config.Style
import ApiTypings.Definition
import ApiTypings.Naming
import ApiTypings.TypeScript.Declaration

/-!
# The client contract

One file of every run declares the interface that controllers send their requests through, with
one method for each verb, and the options of a request.
-/

namespace ApiTypings.Render

open TypeScript

/-- The declaration of the options of a request. -/
def requestConfig (exported : Bool) : Declaration where
  name := requestConfigName
  exported := exported
  kind := .interface none [
    { name := "headers", type := .stringRecord (.primitive .string), optional := true },
    { name := "timeout", type := .primitive .number, optional := true }] []

/-- The signature of the method that serves a verb. -/
def contractMethod (verb : Verb) : Method where
  name := verb.clientMethod
  typeParams := ["T"]
  params := [
    { name := "url", type := .primitive .string },
    { name := if verb.hasBody then "data" else "params", type := .primitive .unknown,
      optional := true },
    { name := "config", type := .ref requestConfigName, optional := true }]
  result := some (.generic "Promise" [.ref "T"])

/-- The declaration of the contract, its methods in the order of their names. -/
def contractInterface (exported : Bool) : Declaration where
  name := contractName
  exported := exported
  kind := .interface none [] ([Verb.delete, .get, .post, .put].map contractMethod)

/-- The file of the contract. -/
def contractFile (style : ModuleStyle) : SourceFile where
  declarations :=
    let exported := style == .modules
    [requestConfig exported, contractInterface exported]

end ApiTypings.Render
