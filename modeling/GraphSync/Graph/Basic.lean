import GraphSync.Statement.Basic

/-! Property graphs in memory: nodes and edges by key, and the indexes asked for. -/
namespace GraphSync

namespace IndexTarget

/-- Targets are compared by label, then by property. -/
instance : Ord IndexTarget := ⟨compareLex (compareOn label) (compareOn property)⟩

instance : Std.TransOrd IndexTarget :=
  inferInstanceAs (Std.TransCmp (compareLex (compareOn label) (compareOn property)))

instance : Std.LawfulEqOrd IndexTarget where
  eq_of_compare h := by
    obtain ⟨hlabel, hproperty⟩ := compareLex_eq_eq.1 h
    exact congr (congrArg mk (Std.LawfulEqOrd.eq_of_compare hlabel))
      (Std.LawfulEqOrd.eq_of_compare hproperty)

instance : LE IndexTarget := .ofOrd IndexTarget

instance : LT IndexTarget := .ofOrd IndexTarget

instance : DecidableLT IndexTarget := .ofOrd IndexTarget

instance : Std.IsLinearOrder IndexTarget := .of_ord

-- named here so that every module finds the same instance, whatever else it imports
instance : Std.LawfulOrderLT IndexTarget := inferInstance

end IndexTarget

/-- The sum of row counts. The instances are core's own, whatever else a module imports. -/
abbrev total (counts : List Nat) : Nat := @List.sum Nat instAddNat Zero.ofOfNat0 counts

structure Node where
  labels : SortedSet String
  properties : Record

structure Edge where
  edgeType : String
  start : Nat
  finish : Nat
  properties : Record

/-- Nodes and edges share one sequence of keys, so key order is the order of creation. -/
structure Graph where
  nodes : SortedMap Nat Node
  edges : SortedMap Nat Edge
  indexes : SortedSet IndexTarget
  lastKey : Nat

namespace Node

def hasLabel (n : Node) (label : String) : Bool := n.labels.contains label

def get? (n : Node) (property : String) : Option Json := n.properties.find? property

/-- Whether the node's identity agrees with a value. -/
def identifiedBy (n : Node) (id : Json) : Bool := (n.get? Names.id).any (·.agrees id)

end Node

namespace Edge

/-- Whether the edge is the one of a type between two nodes. -/
def joins (e : Edge) (edgeType : String) (start finish : Nat) : Bool :=
  e.edgeType == edgeType && e.start == start && e.finish == finish

theorem joins_iff {e : Edge} {edgeType : String} {start finish : Nat} :
    e.joins edgeType start finish = true ↔
      e.edgeType = edgeType ∧ e.start = start ∧ e.finish = finish := by
  simp [joins, and_assoc]

/-- The swept node and the other one. -/
def ends (e : Edge) (d : Direction) : Nat × Nat := d.orient e.start e.finish

end Edge

namespace Graph

def empty : Graph := ⟨.empty, .empty, .empty, 0⟩

instance : Inhabited Graph := ⟨empty⟩

/-- How many nodes and edges there are. -/
def size (g : Graph) : Nat := g.nodes.size + g.edges.size

/-- Nodes of a label, with their keys. -/
def labelled (g : Graph) (label : String) : List (Nat × Node) :=
  g.nodes.entries.filter fun b => b.2.hasLabel label

def hasLabel (g : Graph) (key : Nat) (label : String) : Bool :=
  (g.nodes.find? key).any (·.hasLabel label)

/-- The oldest node of a label with an identity. -/
def findNode (g : Graph) (label : String) (id : Json) : Option Nat :=
  ((g.labelled label).find? fun b => b.2.identifiedBy id).map (·.1)

/-- The edge of a type between two nodes. -/
def findEdge (g : Graph) (edgeType : String) (start finish : Nat) : Option Nat :=
  (g.edges.entries.find? fun b => b.2.joins edgeType start finish).map (·.1)

def addNode (g : Graph) (n : Node) : Graph :=
  { g with nodes := g.nodes.insert (g.lastKey + 1) n, lastKey := g.lastKey + 1 }

def addEdge (g : Graph) (e : Edge) : Graph :=
  { g with edges := g.edges.insert (g.lastKey + 1) e, lastKey := g.lastKey + 1 }

def setNode (g : Graph) (key : Nat) (n : Node) : Graph :=
  { g with nodes := g.nodes.insert key n }

def setEdge (g : Graph) (key : Nat) (e : Edge) : Graph :=
  { g with edges := g.edges.insert key e }

/-- Removes nodes together with every edge at one of them. -/
def removeNodes (g : Graph) (keys : List Nat) : Graph :=
  { g with
    nodes := g.nodes.filter fun k _ => !keys.contains k
    edges := g.edges.filter fun _ e => !keys.contains e.start && !keys.contains e.finish }

def removeEdges (g : Graph) (keys : List Nat) : Graph :=
  { g with edges := g.edges.filter fun k _ => !keys.contains k }

/-! What is shown of a graph. -/

/-- Properties of the nodes of a label, in the order of their creation. -/
def nodeRecords (g : Graph) (label : String) : List Record :=
  (g.labelled label).map (·.2.properties)

/-- Edges of a type, in the order of their creation. -/
def edgesOf (g : Graph) (edgeType : String) : List Edge :=
  g.edges.values.filter fun e => e.edgeType == edgeType

/-- The identity of a node, null if there is none. -/
def idOf (g : Graph) (key : Nat) : Json :=
  .ofOption ((g.nodes.find? key).bind (·.get? Names.id))

/-- No node has both of two labels. -/
def LabelsApart (g : Graph) (a b : String) : Prop :=
  ∀ key n, g.nodes.find? key = some n → n.hasLabel a = true → n.hasLabel b = false

/-! What look-up finds, and what is left of it after a removal. -/

variable {g : Graph} {label : String} {key : Nat} {n : Node}

theorem mem_labelled :
    (key, n) ∈ g.labelled label ↔ g.nodes.find? key = some n ∧ n.hasLabel label = true := by
  rw [labelled, List.mem_filter, SortedMap.find?_eq_some_iff]

theorem hasLabel_iff :
    g.hasLabel key label = true ↔ ∃ n, g.nodes.find? key = some n ∧ n.hasLabel label = true := by
  simp only [hasLabel, Option.any_eq_true]

instance (g : Graph) (a b : String) : Decidable (g.LabelsApart a b) :=
  decidable_of_iff
    (∀ x ∈ g.nodes.entries, x.2.hasLabel a = true → x.2.hasLabel b = false)
    ⟨fun h key n hn => h (key, n) (SortedMap.find?_eq_some_iff.1 hn),
      fun h x hx => h x.1 x.2 (SortedMap.find?_eq_some_iff.2 hx)⟩

/-- The node found is the one of the lowest key among those of the label with the identity. -/
theorem findNode_eq_some_iff {id : Json} : g.findNode label id = some key ↔
    ∃ n, g.nodes.find? key = some n ∧ n.hasLabel label = true ∧ n.identifiedBy id = true ∧
      ∀ k m, k < key → g.nodes.find? k = some m → m.hasLabel label = true →
        m.identifiedBy id = false := by
  rw [findNode, labelled, List.find?_filter, SortedMap.map_find?_entries_eq_some_iff]
  simp only [decide_eq_true_eq, decide_eq_false_iff_not, not_and, Bool.not_eq_true, and_assoc]

theorem findNode_eq_none_iff {id : Json} : g.findNode label id = none ↔
    ∀ k m, g.nodes.find? k = some m → m.hasLabel label = true → m.identifiedBy id = false := by
  rw [findNode, Option.map_eq_none_iff, List.find?_eq_none]
  simp only [Prod.forall, mem_labelled, Bool.not_eq_true, and_imp]

theorem findEdge_eq_some_iff {edgeType : String} {start finish : Nat} :
    g.findEdge edgeType start finish = some key ↔
      ∃ e, g.edges.find? key = some e ∧ e.joins edgeType start finish = true ∧
        ∀ k x, k < key → g.edges.find? k = some x → x.joins edgeType start finish = false :=
  SortedMap.map_find?_entries_eq_some_iff

theorem findEdge_eq_some {edgeType : String} {start finish : Nat}
    (h : g.findEdge edgeType start finish = some key) :
    ∃ e, g.edges.find? key = some e ∧ e.joins edgeType start finish = true := by
  obtain ⟨e, he, hj, -⟩ := findEdge_eq_some_iff.1 h
  exact ⟨e, he, hj⟩

theorem findEdge_eq_none_iff {edgeType : String} {start finish : Nat} :
    g.findEdge edgeType start finish = none ↔
      ∀ k e, g.edges.find? k = some e → e.joins edgeType start finish = false := by
  rw [findEdge, Option.map_eq_none_iff, List.find?_eq_none]
  simp only [Prod.forall, SortedMap.find?_eq_some_iff, Bool.not_eq_true]

theorem find?_nodes_removeNodes (g : Graph) (keys : List Nat) (key : Nat) :
    (g.removeNodes keys).nodes.find? key = if key ∈ keys then none else g.nodes.find? key := by
  cases hf : g.nodes.find? key <;> by_cases h : key ∈ keys <;>
    simp [removeNodes, SortedMap.find?_filter, h, hf]

theorem find?_edges_removeNodes (g : Graph) (keys : List Nat) (key : Nat) :
    (g.removeNodes keys).edges.find? key =
      (g.edges.find? key).filter fun e => !keys.contains e.start && !keys.contains e.finish :=
  SortedMap.find?_filter _ _ _

theorem find?_edges_removeEdges (g : Graph) (keys : List Nat) (key : Nat) :
    (g.removeEdges keys).edges.find? key = if key ∈ keys then none else g.edges.find? key := by
  cases hf : g.edges.find? key <;> by_cases h : key ∈ keys <;>
    simp [removeEdges, SortedMap.find?_filter, h, hf]

end Graph

end GraphSync
