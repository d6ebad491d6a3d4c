import GraphSync.Config
import GraphSync.Graph.Execute
import GraphSync.Statement.Compile

/-! Jobs: named lists of statements, some of them repeated until they affect nothing. -/
namespace GraphSync

/-- Parameters that every statement of a job gets. -/
structure CommonParameters where
  tag : Int
  pageSize : Nat
  /-- The owner, under the name that the schema's statements use. -/
  owner : Option (String × Json)
  extra : Parameters

namespace CommonParameters

/-- The tag alone, with the default page size. -/
def ofTag (tag : Int) : CommonParameters := ⟨tag, ({} : LoaderConfig).pageSize, none, .empty⟩

def ofConfig (tag : Int) (config : LoaderConfig) : CommonParameters :=
  { ofTag tag with pageSize := config.pageSize }

/-- The owner replaces an extra value of its name; tag and page size replace both. -/
def toParameters (c : CommonParameters) : Parameters :=
  ((c.extra.insertAll c.owner.toList).insert Names.sweepTag (.int c.tag)).insert
    Names.pageSize (.nat c.pageSize)

end CommonParameters

/-- A statement of a job; an iterative one is repeated, a page at a time. -/
structure JobStatement where
  statement : Statement
  parameters : Parameters
  iterative : Bool
  pageSize : Nat

namespace JobStatement

def once (s : Statement) (params : Parameters) : JobStatement :=
  ⟨s, params, false, ({} : LoaderConfig).pageSize⟩

/-- Repeats a statement; a page is never empty. -/
def repeated (j : JobStatement) (pageSize : Nat) : JobStatement :=
  { j with iterative := true, pageSize := max pageSize 1 }

/-- The statement with its parameters, the page size of an iterative one among them. -/
def bound (j : JobStatement) : BoundStatement :=
  ⟨j.statement,
    if j.iterative then j.parameters.insert Names.pageSize (.nat j.pageSize) else j.parameters⟩

/-- Runs a statement until it affects nothing. A statement that affects rows and removes nothing
does so for ever. -/
def runPages (now : Int) (b : BoundStatement) (counted : Nat) (g : Graph) :
    Except GraphError Nat × Graph :=
  match g.execute now [b] with
  | .error e => (.error e, g)
  | .ok (next, affected) =>
    if total affected = 0 then (.ok counted, next)
    else if next.size < g.size then runPages now b (counted + total affected) next
    else (.error (.endless b.statement.kind), next)
termination_by g.size

/-- Runs the statement and counts the rows it affects. -/
def run (now : Int) (j : JobStatement) : GraphM GraphError Nat :=
  if j.iterative then runPages now j.bound 0
  else do
    let affected ← GraphM.transact now [j.bound]
    return total affected

end JobStatement

structure Job where
  name : String
  statements : List JobStatement

namespace Job

/-- Sweeps what is stale of a node type. -/
def cleanup (s : NodeSchema) (common : CommonParameters) : Job :=
  ⟨"Cleanup " ++ s.label, s.cleanupStatements.map fun statement =>
    (JobStatement.once statement common.toParameters).repeated common.pageSize⟩

/-- Sweeps the stale standalone edges of one owner. -/
def linkCleanup (e : EdgeSchema) (common : CommonParameters) : Except SchemaError Job := do
  let statement ← e.cleanupStatement
  return ⟨"Cleanup " ++ e.edgeType ++ " match-links",
    [(JobStatement.once statement common.toParameters).repeated common.pageSize]⟩

/-- Refuses a job if a statement refers to a parameter without a value. -/
def check (j : Job) : Except GraphError Unit := j.statements.forM fun s => s.bound.check

/-- Runs statements in order, up to the first that fails, and counts the affected rows. All of them
run at one time of the clock, which a store looks at anew for each transaction. -/
def runAll (now : Int) : List JobStatement → GraphM GraphError Nat
  | [] => pure 0
  | s :: rest => do
    let affected ← s.run now
    let others ← runAll now rest
    return affected + others

/-- Runs the job, unless a parameter has no value. -/
def run (now : Int) (j : Job) : GraphM GraphError Nat := do
  GraphM.ofExcept id j.check
  runAll now j.statements

end Job

end GraphSync
