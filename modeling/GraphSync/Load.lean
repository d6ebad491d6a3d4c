import GraphSync.Config
import GraphSync.Graph.Execute
import GraphSync.Statement.Compile

/-! Loading records: indexes first, then every statement for every batch in one transaction. -/
namespace GraphSync

structure LoadSummary where
  received : Nat
  /-- Records without an identity. -/
  skipped : Nat
  loaded : Nat
  /-- Edge rows written. -/
  edges : Nat
deriving DecidableEq, Repr

namespace LoadSummary

def toJson (s : LoadSummary) : Json :=
  .ofFields [("received", .nat s.received), ("skipped", .nat s.skipped), ("loaded", .nat s.loaded),
    ("relationships", .nat s.edges)]

end LoadSummary

namespace Load

/-- Consecutive pieces of a list, each of the given length but for the last. Zero counts as one. -/
def chunks {α : Type} (size : Nat) : List α → List (List α)
  | [] => []
  | x :: rest => (x :: rest.take (size - 1)) :: chunks size (rest.drop (size - 1))
termination_by xs => xs.length
decreasing_by
  simp only [List.length_drop, List.length_cons]
  omega

theorem flatten_chunks {α : Type} (size : Nat) (xs : List α) : (chunks size xs).flatten = xs := by
  fun_induction chunks size xs with
  | case1 => rfl
  | case2 x rest ih => simp [ih]

/-- Parameters of a load, with the tag and an empty batch. -/
def baseParameters (params : Parameters) (tag : Int) : Parameters :=
  (params.insert Names.loadTag (.int tag)).insert Names.batch (.arr [])

/-- Every statement bound to a batch. -/
def bindBatch (statements : List Statement) (base : Parameters) (records : List Record) :
    List BoundStatement :=
  let params := base.insert Names.batch (.arr (records.map Json.ofRecord))
  statements.map fun s => ⟨s, params⟩

variable (config : LoaderConfig) (now : Int)

/-- Creates indexes one by one and counts them. -/
def createIndexes (statements : List Statement) : GraphM GraphError Nat := do
  statements.forM fun s => discard (GraphM.transact now [⟨s, .empty⟩])
  return statements.length

def ensureIndexes (s : NodeSchema) : GraphM GraphError Nat := createIndexes now s.indexStatements

def ensureLinkIndexes (e : EdgeSchema) : GraphM GraphError Nat := do
  let statements ← GraphM.ofExcept .schema e.indexStatements
  createIndexes now statements

/-- Runs every statement for every batch and gives the affected rows of each. Parameters are
checked beforehand, even if there are no records. -/
def runBatches (statements : List Statement) (records : List Record) (params : Parameters)
    (tag : Int) : GraphM GraphError (List (Statement × Nat)) := do
  let base := baseParameters params tag
  GraphM.ofExcept id (statements.forM fun s => BoundStatement.check ⟨s, base⟩)
  if records.isEmpty then return []
  let bound := (chunks config.batchSize records).flatMap (bindBatch statements base)
  let affected ← GraphM.transact now bound
  return (bound.map (·.statement)).zip affected

def isEdgeWrite : Statement → Bool
  | .upsertNodes _ => false
  | _ => true

/-- Loads records as nodes of a schema, with their edges. Records without identity are skipped. -/
def nodes (s : NodeSchema) (records : List Record) (params : Parameters) (tag : Int) :
    GraphM GraphError LoadSummary := do
  let _ ← ensureIndexes now s
  let kept := records.filter fun r => (s.properties.id.resolve r params).isSome
  let done ← runBatches config now s.loadStatements kept params tag
  return ⟨records.length, records.length - kept.length, kept.length,
    total ((done.filter fun d => isEdgeWrite d.1).map (·.2))⟩

/-- Loads standalone edges between nodes that are already stored. -/
def links (e : EdgeSchema) (records : List Record) (params : Parameters) (tag : Int) :
    GraphM GraphError LoadSummary := do
  let _ ← ensureLinkIndexes now e
  let statement ← GraphM.ofExcept .schema e.loadStatement
  let done ← runBatches config now [statement] records params tag
  return ⟨records.length, 0, records.length, total (done.map (·.2))⟩

end Load

end GraphSync
