import GraphSync.Error
import GraphSync.Graph.Matching

/-! Writing nodes and edges: each is located first and created, with its time, only if absent. -/
namespace GraphSync

namespace Mapping

/-- Sets every property of a mapping; one without a value is removed. -/
def assignAll (m : Mapping) (record : Record) (params : Parameters) (r : Record) : Record :=
  m.foldl (fun r e => r.assign e.1 (e.2.resolve record params)) r

end Mapping

namespace Parameters

def require (params : Parameters) (name : String) : Except GraphError Json :=
  match params.find? name with
  | some v => .ok v
  | none => .error (.invalidParameter name .unbound)

def recordOf (v : Json) : Except GraphError Record :=
  match v.record? with
  | some r => .ok r
  | none => .error (.invalidParameter Names.batch .notRecords)

/-- The records of the batch. -/
def records (params : Parameters) : Except GraphError (List Record) := do
  match ← Parameters.require params Names.batch with
  | .arr items => items.mapM recordOf
  | _ => .error (.invalidParameter Names.batch .notList)

/-- How many entities a page may remove. -/
def pageSize (params : Parameters) : Except GraphError Nat := do
  match ← Parameters.require params Names.pageSize with
  | .num n =>
    match n.count? with
    | some size => .ok size
    | none => .error (.invalidParameter Names.pageSize .notCount)
  | _ => .error (.invalidParameter Names.pageSize .notCount)

end Parameters

namespace Graph

variable (now : Int)

/-- The key of the node of a label with an identity, created if there is none. -/
def locateNode (g : Graph) (label : String) (id : Json) : Graph × Nat :=
  match g.findNode label id with
  | some key => (g, key)
  | none =>
    let record : Record := SortedMap.ofList [(Names.id, id), (Names.firstSeen, .int now)]
    (g.addNode ⟨.ofKeys [label], record⟩, g.lastKey + 1)

/-- The key of the edge of a type between two nodes, created if there is none. -/
def locateEdge (g : Graph) (edgeType : String) (start finish : Nat) : Graph × Nat :=
  match g.findEdge edgeType start finish with
  | some key => (g, key)
  | none =>
    (g.addEdge ⟨edgeType, start, finish, SortedMap.ofList [(Names.firstSeen, .int now)]⟩,
      g.lastKey + 1)

def updateNode (g : Graph) (key : Nat) (f : Node → Node) : Graph :=
  match g.nodes.find? key with
  | some n => g.setNode key (f n)
  | none => g

def updateEdge (g : Graph) (key : Nat) (f : Record → Record) : Graph :=
  match g.edges.find? key with
  | some e => g.setEdge key { e with properties := f e.properties }
  | none => g

/-- Writes one record as a node. -/
def writeNode (u : NodeUpsert) (params : Parameters) (g : Graph) (record : Record) :
    Except GraphError Graph :=
  match u.properties.id.resolve record params with
  | none => .error (.nullId u.label)
  | some id =>
    let (g, key) := g.locateNode now u.label id
    .ok (g.updateNode key fun n =>
      ⟨SortedSet.addAll n.labels u.extraLabels,
        u.properties.assigned.assignAll record params n.properties⟩)

/-- Writes the records of the batch as nodes and counts them. -/
def upsertNodes (g : Graph) (u : NodeUpsert) (params : Parameters) :
    Except GraphError (Graph × Nat) := do
  let records ← Parameters.records params
  let g ← records.foldlM (writeNode now u params) g
  return (g, records.length)

/-- Writes one edge between two nodes, oriented by its schema. -/
def writeEdge (e : EdgeSchema) (params : Parameters) (record : Record) (g : Graph)
    (row : Nat × Nat) : Graph :=
  let (start, finish) := e.direction.orient row.1 row.2
  let (g, key) := g.locateEdge now e.edgeType start finish
  g.updateEdge key (e.properties.mapping.assignAll record params)

def writeEdges (e : EdgeSchema) (params : Parameters) (g : Graph)
    (batch : List (Record × List (Nat × Nat))) : Graph :=
  batch.foldl (fun g b => b.2.foldl (writeEdge now e params b.1) g) g

/-- The loaded node of a record paired with every target, none if it is not found. -/
def edgeRows (g : Graph) (u : EdgeUpsert) (params : Parameters) (record : Record) :
    List (Nat × Nat) :=
  match (u.nodeId.resolve record params).bind (g.findNode u.nodeLabel) with
  | some node => (g.matching record params u.edge.target).map (node, ·)
  | none => []

/-- Every source of a record paired with every target. -/
def linkRows (g : Graph) (u : LinkUpsert) (params : Parameters) (record : Record) :
    List (Nat × Nat) :=
  (g.matching record params u.source).flatMap fun source =>
    (g.matching record params u.edge.target).map (source, ·)

/-- Writes the edges of every record's rows and counts the rows. Nodes are not touched, so the
rows can all be found beforehand. -/
def upsertRows (g : Graph) (e : EdgeSchema) (params : Parameters)
    (rows : Record → List (Nat × Nat)) : Except GraphError (Graph × Nat) := do
  let records ← Parameters.records params
  let batch := records.map fun r => (r, rows r)
  return (g.writeEdges now e params batch, total (batch.map (·.2.length)))

def upsertEdges (g : Graph) (u : EdgeUpsert) (params : Parameters) :
    Except GraphError (Graph × Nat) :=
  g.upsertRows now u.edge params (g.edgeRows u params)

def upsertLinks (g : Graph) (u : LinkUpsert) (params : Parameters) :
    Except GraphError (Graph × Nat) :=
  g.upsertRows now u.edge params (g.linkRows u params)

/-- Pairs of nodes of two labels whose properties agree. -/
def linkedPairs (g : Graph) (l : PropertyLink) : List (Nat × Nat) :=
  (g.labelled l.fromLabel).flatMap fun a =>
    match a.2.properties.present l.fromProperty with
    | none => []
    | some v =>
      ((g.labelled l.toLabel).filter fun b =>
        l.matchMode.accepts (b.2.get? l.toProperty) (some v)).map fun b => (a.1, b.1)

def writeLink (edgeType : String) (tag : Json) (g : Graph) (pair : Nat × Nat) : Graph :=
  let (g, key) := g.locateEdge now edgeType pair.1 pair.2
  g.updateEdge key fun r => r.insert Names.mark tag

/-- Links and marks every such pair. -/
def linkByProperty (g : Graph) (l : PropertyLink) (params : Parameters) :
    Except GraphError (Graph × Nat) := do
  let tag ← Parameters.require params Names.sweepTag
  let pairs := g.linkedPairs l
  return (pairs.foldl (writeLink now l.edgeType tag) g, pairs.length)

end Graph

end GraphSync
