import GraphSync.Graph.Upsert

/-! Removing what is stale, a page at a time. -/
namespace GraphSync.Graph

variable (g : Graph) (params : Parameters) (tag : Json)

/-- Stale nodes of a label in a scope. -/
def staleNodes (label : String) (scope : Option Scope) : List Nat :=
  ((g.labelled label).filter fun b =>
    b.2.properties.isStale tag && g.inScope params scope b.1).map (·.1)

/-- Stale edges that satisfy a condition. -/
def staleEdges (p : Edge → Bool) : List Nat :=
  (g.edges.entries.filter fun b => b.2.properties.isStale tag && p b.2).map (·.1)

/-- Whether an edge comes to a node of a label from an owner that the scope means. -/
def isOwnership (label : String) (s : Scope) (e : Edge) : Bool :=
  e.edgeType == s.edgeType && g.hasLabel e.finish label && g.isOwner params s e.start

/-- Whether an edge has the pattern, seen from a node of a label. -/
def hasPattern (label : String) (p : EdgePattern) (e : Edge) : Bool :=
  e.edgeType == p.edgeType && g.hasLabel (e.ends p.direction).1 label &&
    g.hasLabel (e.ends p.direction).2 p.otherLabel

def isScopedEdge (label : String) (scope : Option Scope) (p : EdgePattern) (e : Edge) : Bool :=
  g.hasPattern label p e && g.inScope params scope (e.ends p.direction).1

/-- Whether an edge of the pattern is attributed to the owner of the parameters. -/
def isAttributed (s : LinkSweep) (e : Edge) : Bool :=
  g.hasPattern s.sourceLabel s.edge e &&
    MatchMode.exact.accepts (e.properties.find? Names.ownerLabel)
      (s.ownerLabel.resolve .empty params) &&
    MatchMode.exact.accepts (e.properties.find? Names.ownerId) (s.ownerId.resolve .empty params)

/-- Removes one page of what a sweep finds and counts it. -/
def sweepPage (find : Json → List Nat) (remove : Graph → List Nat → Graph) :
    Except GraphError (Graph × Nat) := do
  let tag ← Parameters.require params Names.sweepTag
  let size ← Parameters.pageSize params
  let page := (find tag).take size
  return (remove g page, page.length)

def sweepNodes (label : String) (scope : Option Scope) : Except GraphError (Graph × Nat) :=
  g.sweepPage params (fun tag => g.staleNodes params tag label scope) removeNodes

def sweepEdgesWhere (p : Edge → Bool) : Except GraphError (Graph × Nat) :=
  g.sweepPage params (fun tag => g.staleEdges tag p) removeEdges

end GraphSync.Graph
