import GraphSync.Schema.Node

/-! Statements: what a schema asks of a graph, apart from the text in which a server is told. -/
namespace GraphSync

/-- A property that nodes of a label are looked up by. -/
structure IndexTarget where
  label : String
  property : String
deriving DecidableEq, Repr

structure NodeUpsert where
  label : String
  extraLabels : List String
  properties : NodeProperties

/-- Edges of loaded nodes, which are found again by their identity. -/
structure EdgeUpsert where
  nodeLabel : String
  nodeId : PropertyRef
  edge : EdgeSchema

/-- Standalone edges between the nodes two matchers accept. -/
structure LinkUpsert where
  source : Endpoint
  edge : EdgeSchema

/-- Nodes reached from a matching owner through an edge of a type. -/
structure Scope where
  edgeType : String
  owner : Endpoint

/-- Edges of a type between a node and nodes of another label. -/
structure EdgePattern where
  edgeType : String
  direction : Direction
  otherLabel : String
deriving DecidableEq, Repr

/-- Standalone edges attributed to one owner. -/
structure LinkSweep where
  sourceLabel : String
  edge : EdgePattern
  ownerLabel : PropertyRef
  ownerId : PropertyRef

/-- Links nodes of two labels whose properties agree. -/
structure PropertyLink where
  fromLabel : String
  fromProperty : String
  edgeType : String
  toLabel : String
  toProperty : String
  matchMode : MatchMode
deriving DecidableEq, Repr

inductive Statement where
  | createIndex (target : IndexTarget)
  | upsertNodes (upsert : NodeUpsert)
  | upsertEdges (upsert : EdgeUpsert)
  | upsertLinks (upsert : LinkUpsert)
  /-- Removes stale nodes of a label, with all their edges. -/
  | sweepNodes (label : String) (scope : Option Scope)
  /-- Removes stale edges from owners to nodes of a label. -/
  | sweepOwnership (label : String) (scope : Scope)
  /-- Removes stale edges of nodes of a label. -/
  | sweepEdges (label : String) (scope : Option Scope) (edge : EdgePattern)
  | sweepLinks (sweep : LinkSweep)
  | linkByProperty (link : PropertyLink)
  /-- Text for a server; nothing is known about what it does. -/
  | raw (text : String)

namespace Statement

/-- The name of a statement in reports. -/
def kind : Statement → String
  | createIndex _ => "create_index"
  | upsertNodes _ => "upsert_nodes"
  | upsertEdges _ => "upsert_relationships"
  | upsertLinks _ => "upsert_match_links"
  | sweepNodes _ _ => "sweep_nodes"
  | sweepOwnership _ _ => "sweep_relationships"
  | sweepEdges _ _ _ => "sweep_relationships"
  | sweepLinks _ => "sweep_match_links"
  | linkByProperty _ => "link_by_property"
  | raw _ => "raw"

/-- Index statements do not share a transaction with writes. -/
def isSchemaChange : Statement → Bool
  | createIndex _ => true
  | _ => false

end Statement

namespace PropertyLink

/-- Reads a link; `alone` tells what besides null may go with the name of the match mode. -/
def decodeWith (alone : Draft → Bool) : Decoder PropertyLink :=
  Decoder.record ⟨"", "", "", "", "", .exact⟩ [
    .required "from_label" .text fun v l => { l with fromLabel := v },
    .required "from_property" .text fun v l => { l with fromProperty := v },
    .required "rel_label" .text fun v l => { l with edgeType := v },
    .required "to_label" .text fun v l => { l with toLabel := v },
    .required "to_property" .text fun v l => { l with toProperty := v },
    .defaulted "match_mode" (Decoder.named MatchMode.all MatchMode.text alone)
      fun v l => { l with matchMode := v }]

def decode : Decoder PropertyLink := decodeWith fun _ => false

def fields (l : PropertyLink) : List (String × Json) :=
  [("from_label", .str l.fromLabel), ("from_property", .str l.fromProperty),
    ("rel_label", .str l.edgeType), ("to_label", .str l.toLabel),
    ("to_property", .str l.toProperty), ("match_mode", .str l.matchMode.text)]

end PropertyLink

end GraphSync
