import GraphSync.Job.Basic
import GraphSync.Load
import GraphSync.Ontology.Merge
import GraphSync.Ontology.Registry

/-! Building concept nodes from stored provider nodes, and linking the two. -/
namespace GraphSync

structure OntologySummary where
  merged : Nat
  load : LoadSummary
  links : Nat
deriving DecidableEq, Repr

namespace OntologySummary

def toJson (s : OntologySummary) : Json :=
  .ofFields [("merged", .nat s.merged), ("load", s.load.toJson), ("links", .nat s.links)]

end OntologySummary

namespace Ontology

variable (o : Ontology) (concept : String) (modules : List String)

/-- The records that a module's eligible mappings make of the stored nodes. -/
def projected (m : ModuleMapping) (g : Graph) : List Record :=
  (m.nodes.filter (·.eligible)).flatMap fun n =>
    (g.nodeRecords n.nodeLabel).filterMap n.project

/-- Projected records of every module, merged by identity. -/
def collect (g : Graph) : Except OntologyError (List Record) := do
  let definition ← o.concept concept
  let mappings ← modules.mapM (o.mapping concept)
  return Merge.merge definition.idField (mappings.flatMap fun m => projected m g)

/-- Runs the links of every module. -/
def runModules (now : Int) (params : Parameters) : List String → GraphM OntologyError Nat
  | [] => pure 0
  | name :: rest => do
    let m ← GraphM.ofExcept id (o.mapping concept name)
    let affected ← GraphM.mapError .graph
      (Job.runAll now (m.links.map fun l => JobStatement.once l.query.statement params))
    let others ← runModules now params rest
    return affected + others

/-- Merges and loads the concept nodes under a tag, then runs the links of every module. The clock
is taken to stand still at `now` during the run: a store looks at it anew for each transaction, so
that links can get a later time of creation than the nodes. -/
def run (config : LoaderConfig) (now tag : Int) : GraphM OntologyError OntologySummary := do
  let schema ← GraphM.ofExcept id (o.nodeSchema concept)
  let records ← GraphM.ofExcept id (o.collect concept modules (← get))
  let load ← GraphM.mapError .graph (Load.nodes config now schema records .empty tag)
  let links ← o.runModules concept now (CommonParameters.ofTag tag).toParameters modules
  return ⟨records.length, load, links⟩

end Ontology

end GraphSync
