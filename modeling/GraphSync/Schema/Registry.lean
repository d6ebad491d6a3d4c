import GraphSync.Schema.Node

/-! Node schemas by resource type; schemas that share a label must agree on its cleanup scope. -/
namespace GraphSync

structure Registry where
  schemas : SortedMap String NodeSchema
  /-- The scope that the schemas of a label have, by label. -/
  scopes : SortedMap String CleanupScope

/-- Work on a registry that may fail; what was done before a failure stays done. -/
abbrev RegistryM (α : Type) := ExceptT SchemaError (StateM Registry) α

namespace Registry

def empty : Registry := ⟨.empty, .empty⟩

/-- The key of a schema, or of a variant of it. -/
def key (label : String) : Option String → String
  | none => label
  | some variant => label ++ "/" ++ variant

def scopeOf (r : Registry) (label : String) : Option CleanupScope := r.scopes.find? label

def get? (r : Registry) (key : String) : Option NodeSchema := r.schemas.find? key

/-- What stands against keeping a schema under a key. -/
def fault? (r : Registry) (key : String) (s : NodeSchema) : Option SchemaError :=
  if r.schemas.contains key then some (.duplicateSchema key)
  else
    match r.scopeOf s.label with
    | none => none
    | some existing =>
      if existing = s.cleanupScope then none
      else some (.scopeConflict s.label existing s.cleanupScope)

/-- Keeps a schema under a key, and its scope for its label. -/
def insert (key : String) (s : NodeSchema) : RegistryM Unit := do
  if let some e := (← get).fault? key s then throw e
  modify fun r => { r with scopes := r.scopes.insert s.label s.cleanupScope }
  modify fun r => { r with schemas := r.schemas.insert key s }

/-- Adds a schema under its label, or under a variant of it. -/
def register (r : Registry) (variant : Option String) (s : NodeSchema) :
    Except SchemaError Registry :=
  match insert (key s.label variant) s r with
  | (.ok (), r) => .ok r
  | (.error e, _) => .error e

end Registry

end GraphSync
