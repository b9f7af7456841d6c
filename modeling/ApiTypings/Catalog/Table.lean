import ApiTypings.Catalog.Basic

/-!
# Definitions under keys

A table stores definitions under keys, in the order in which the keys were first used. What is
stored under a key that is taken takes the place of what was there. A definition is inserted under
its identity, if nothing is stored under that yet.
-/

namespace ApiTypings

/-- Definitions stored under keys, in the order in which the keys were first used. -/
structure DefinitionTable where
  entries : List (Identity × Definition) := []

namespace DefinitionTable

/-- The keys in order. -/
def keys (t : DefinitionTable) : List Identity := t.entries.map Prod.fst

/-- The definition stored under a key. -/
def get? (t : DefinitionTable) (key : Identity) : Option Definition := t.entries.lookup key

/-- Stores a definition under a key: in the place of what is stored there, else at the end. -/
def store (t : DefinitionTable) (key : Identity) (d : Definition) : DefinitionTable :=
  if key ∈ t.keys then ⟨t.entries.map fun e => if e.1 = key then (key, d) else e⟩
  else ⟨t.entries ++ [(key, d)]⟩

/-- Stores definitions under their identities, one after the other, up to the first whose identity
is taken: the table that results, and that identity. -/
def insertAll (t : DefinitionTable) : List Definition → DefinitionTable × Option Identity
  | [] => (t, none)
  | d :: ds =>
    if (t.get? d.identity).isSome then (t, some d.identity)
    else insertAll (t.store d.identity d) ds

/-- Inserts the definitions of another table in their order. -/
def merge (t other : DefinitionTable) : DefinitionTable × Option Identity :=
  t.insertAll (other.entries.map Prod.snd)

/-- The table of a list of definitions, or the first identity that occurs again. -/
def ofDefinitions (ds : List Definition) : Except Identity DefinitionTable :=
  match insertAll {} ds with
  | (t, none) => .ok t
  | (_, some id) => .error id

/-- The keys whose definitions are controllers, in order. -/
def entryPoints (t : DefinitionTable) : List Identity :=
  (t.entries.filter (·.2.controller)).map Prod.fst

end DefinitionTable

end ApiTypings
