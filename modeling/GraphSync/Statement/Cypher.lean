import GraphSync.Statement.Basic
import GraphSync.Statement.Placeholder

/-!
Statements as Cypher text. A batch is unwound as `item`; `i` is the loaded node, `j` the other
one, `n` a swept node, `s` its owner and `r` an edge.
-/
namespace GraphSync

namespace Cypher

def lines (ls : List String) : String := "\n".intercalate ls

def conjunction (predicates : List String) : String := " AND ".intercalate predicates

def returnAffected : String := "RETURN count(*) AS affected"

def unwindBatch : String := "UNWIND $" ++ Names.batch ++ " AS item"

/-- Comparison of a property with the expected value. -/
def predicate (subject expected : String) : MatchMode → String
  | .exact => subject ++ " = " ++ expected
  | .caseInsensitive => "toLower(" ++ subject ++ ") = toLower(" ++ expected ++ ")"
  | .fuzzyCaseInsensitive => "toLower(" ++ subject ++ ") CONTAINS toLower(" ++ expected ++ ")"

/-- The variable for one element of a list that is matched element by element. -/
def candidate (var : String) : String := var ++ "_candidate"

def matcherPredicates (var : String) (m : Matcher) : List String :=
  m.mapping.map fun e =>
    predicate (var ++ "." ++ e.1) (if e.2.isOneToMany then candidate var else e.2.text)
      e.2.matchMode

/-- Lines that bind a variable to the nodes an endpoint accepts. -/
def endpointLines (var : String) (p : Endpoint) : List String :=
  (p.matcher.oneToMany?.toList.map fun e =>
    "UNWIND " ++ e.2.text ++ " AS " ++ candidate var) ++
  ["MATCH (" ++ var ++ ":" ++ p.label ++ ")",
    "WHERE " ++ conjunction (matcherPredicates var p.matcher)]

/-- The pattern of an edge between a node on the left and one on the right. -/
def relate (left edge right : String) : Direction → String
  | .inward => "(" ++ left ++ ")<-[" ++ edge ++ "]-(" ++ right ++ ")"
  | .outward => "(" ++ left ++ ")-[" ++ edge ++ "]->(" ++ right ++ ")"

/-- A stale entity has no mark, or another one than the sweep's. -/
def stale (var : String) : String :=
  "(" ++ var ++ "." ++ Names.mark ++ " IS NULL OR " ++ var ++ "." ++ Names.mark ++ " <> $" ++
    Names.sweepTag ++ ")"

def onCreate (var : String) : String :=
  "ON CREATE SET " ++ var ++ "." ++ Names.firstSeen ++ " = timestamp()"

def assignments (items : List String) : String :=
  ",\n".intercalate (items.map ("    " ++ ·))

def assignProperty (var : String) (e : String × PropertyRef) : String :=
  var ++ "." ++ e.1 ++ " = " ++ e.2.text

/-- Pattern of a node found by its identity. -/
def identified (label : String) (id : PropertyRef) : String :=
  "(i:" ++ label ++ " \x7b" ++ Names.id ++ ": " ++ id.text ++ "\x7d)"

def mergeEdgeLines (e : EdgeSchema) : List String :=
  ["MERGE " ++ relate "i" ("r:" ++ e.edgeType) "j" e.direction, onCreate "r", "SET",
    assignments (e.properties.mapping.map (assignProperty "r")), returnAffected]

def indexText (t : IndexTarget) : String :=
  "CREATE INDEX IF NOT EXISTS FOR (n:" ++ t.label ++ ") ON (n." ++ t.property ++ ")"

def nodeUpsertText (u : NodeUpsert) : String :=
  lines [unwindBatch, "MERGE " ++ identified u.label u.properties.id, onCreate "i", "SET",
    assignments (u.properties.assigned.map (assignProperty "i") ++ u.extraLabels.map ("i:" ++ ·)),
    returnAffected]

def edgeUpsertText (u : EdgeUpsert) : String :=
  lines ([unwindBatch, "MATCH " ++ identified u.nodeLabel u.nodeId] ++
    endpointLines "j" u.edge.target ++ mergeEdgeLines u.edge)

def linkUpsertText (u : LinkUpsert) : String :=
  lines ([unwindBatch] ++ endpointLines "i" u.source ++ endpointLines "j" u.edge.target ++
    mergeEdgeLines u.edge)

/-- The pattern of a node and its owner, with a name for the edge or without. -/
def scopeMatch (label edge : String) (s : Scope) : String :=
  "MATCH " ++ relate ("n:" ++ label) (edge ++ ":" ++ s.edgeType) ("s:" ++ s.owner.label) .inward

def ownerPredicates (s : Scope) : List String := matcherPredicates "s" s.owner.matcher

def edgeMatch (left : String) (e : EdgePattern) : String :=
  "MATCH " ++ relate left ("r:" ++ e.edgeType) (":" ++ e.otherLabel) e.direction

def limited (var : String) : String := "WITH DISTINCT " ++ var ++ " LIMIT $" ++ Names.pageSize

def removeEdges (body : List String) : String :=
  lines (body ++ [limited "r", "DELETE r", returnAffected])

def nodeSweepText (label : String) (scope : Option Scope) : String :=
  let (pattern, predicates) :=
    match scope with
    | some s => (scopeMatch label "" s, ownerPredicates s)
    | none => ("MATCH (n:" ++ label ++ ")", [])
  lines [pattern, "WHERE " ++ conjunction (predicates ++ [stale "n"]), limited "n",
    "DETACH DELETE n", returnAffected]

def ownershipSweepText (label : String) (s : Scope) : String :=
  removeEdges [scopeMatch label "r" s, "WHERE " ++ conjunction (ownerPredicates s ++ [stale "r"])]

def edgeSweepText (label : String) (scope : Option Scope) (e : EdgePattern) : String :=
  match scope with
  | some s => removeEdges [scopeMatch label "" s, "WHERE " ++ conjunction (ownerPredicates s),
      edgeMatch "n" e, "WHERE " ++ stale "r"]
  | none => removeEdges [edgeMatch ("n:" ++ label) e, "WHERE " ++ stale "r"]

def linkSweepText (s : LinkSweep) : String :=
  lines [edgeMatch ("n:" ++ s.sourceLabel) s.edge, "WHERE " ++ stale "r",
    "  AND r." ++ Names.ownerLabel ++ " = " ++ s.ownerLabel.text,
    "  AND r." ++ Names.ownerId ++ " = " ++ s.ownerId.text,
    "WITH r LIMIT $" ++ Names.pageSize, "DELETE r", returnAffected]

def propertyLinkText (l : PropertyLink) : String :=
  lines ["MATCH (i:" ++ l.fromLabel ++ ")", "WHERE i." ++ l.fromProperty ++ " IS NOT NULL",
    "MATCH (j:" ++ l.toLabel ++ ")",
    "WHERE " ++ predicate ("j." ++ l.toProperty) ("i." ++ l.fromProperty) l.matchMode,
    "MERGE " ++ relate "i" ("r:" ++ l.edgeType) "j" .outward, onCreate "r",
    "SET r." ++ Names.mark ++ " = $" ++ Names.sweepTag, returnAffected]

end Cypher

namespace Statement

/-- The statement as text for a server. -/
def cypher : Statement → String
  | createIndex target => Cypher.indexText target
  | upsertNodes u => Cypher.nodeUpsertText u
  | upsertEdges u => Cypher.edgeUpsertText u
  | upsertLinks u => Cypher.linkUpsertText u
  | sweepNodes label scope => Cypher.nodeSweepText label scope
  | sweepOwnership label scope => Cypher.ownershipSweepText label scope
  | sweepEdges label scope edge => Cypher.edgeSweepText label scope edge
  | sweepLinks s => Cypher.linkSweepText s
  | linkByProperty l => Cypher.propertyLinkText l
  | raw text => text

/-- The parameters that the text refers to. -/
def parameters (s : Statement) : List String := Placeholder.names s.cypher

end Statement

end GraphSync
