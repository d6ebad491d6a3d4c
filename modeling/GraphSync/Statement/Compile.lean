import GraphSync.Statement.Basic

/-! The statements that load, index and clean up what a schema describes. -/
namespace GraphSync

namespace EdgeSchema

def pattern (e : EdgeSchema) : EdgePattern := ⟨e.edgeType, e.direction, e.target.label⟩

/-- Writes standalone edges. -/
def loadStatement (e : EdgeSchema) : Except SchemaError Statement := do
  let source ← e.linkSource
  return .upsertLinks ⟨source, e⟩

/-- The keys of a matcher under its label. -/
def endpointIndexes (p : Endpoint) : List IndexTarget := p.matcher.keys.map (⟨p.label, ·⟩)

/-- The reference of a property that sweeps compare with. -/
def ownerRef (e : EdgeSchema) (name : String) : Except SchemaError PropertyRef :=
  match e.properties.mapping.ref? name with
  | some r => .ok r
  | none => .error (.missingProperty e.edgeType name)

/-- Removes stale standalone edges of one owner. -/
def cleanupStatement (e : EdgeSchema) : Except SchemaError Statement := do
  let source ← e.linkSource
  let ownerLabel ← e.ownerRef Names.ownerLabel
  let ownerId ← e.ownerRef Names.ownerId
  return .sweepLinks ⟨source.label, e.pattern, ownerLabel, ownerId⟩

end EdgeSchema

/-- Index statements, each target once and at its first place. -/
def indexAll (targets : List IndexTarget) : List Statement :=
  (targets.foldl (fun seen t => if t ∈ seen then seen else seen ++ [t]) []).map .createIndex

namespace EdgeSchema

/-- Indexes for both ends of a standalone edge. -/
def indexStatements (e : EdgeSchema) : Except SchemaError (List Statement) := do
  let source ← e.linkSource
  return indexAll (endpointIndexes source ++ endpointIndexes e.target)

end EdgeSchema

namespace NodeSchema

/-- Writes the nodes first, then their edges. -/
def loadStatements (s : NodeSchema) : List Statement :=
  .upsertNodes ⟨s.label, s.extraLabels, s.properties⟩ ::
    s.allEdges.map fun e => .upsertEdges ⟨s.label, s.properties.id, e⟩

/-- What a schema looks nodes up by: identity and mark, flagged properties, and matcher keys. -/
def indexTargets (s : NodeSchema) : List IndexTarget :=
  [⟨s.label, Names.id⟩, ⟨s.label, Names.mark⟩] ++
    (s.properties.mapping.filter (·.2.extraIndex)).map (⟨s.label, ·.1⟩) ++
    s.extraLabels.map (⟨·, Names.id⟩) ++
    s.allEdges.flatMap fun e => EdgeSchema.endpointIndexes e.target

def indexStatements (s : NodeSchema) : List Statement := indexAll s.indexTargets

def scope (s : NodeSchema) : Option Scope := s.scopingEdge.map fun e => ⟨e.edgeType, e.target⟩

/-- Stale edges to owners: of the scope, or of any owner when cleanup is unscoped. -/
def ownershipSweep (s : NodeSchema) : Option Statement :=
  match s.scope with
  | some scope => some (.sweepOwnership s.label scope)
  | none => s.owner.map fun e => .sweepEdges s.label none e.pattern

/-- Stale nodes go first, with all their edges; then stale edges of the others, and of owners. -/
def cleanupStatements (s : NodeSchema) : List Statement :=
  .sweepNodes s.label s.scope ::
    (s.edges.map fun e => .sweepEdges s.label s.scope e.pattern) ++ s.ownershipSweep.toList

end NodeSchema

end GraphSync
