import GraphSync.Proofs.Graph.Step
import GraphSync.Proofs.Graph.Within

/-! Well-formed graphs, and that nothing but these can be reached from the empty one. -/
namespace GraphSync.Graph

/-- Keys are given out in ascending order and none of them twice; edges join nodes that are there,
and no two edges of a type join the same nodes. -/
structure WellFormed (g : Graph) : Prop where
  node_le : ∀ {k n}, g.nodes.find? k = some n → k ≤ g.lastKey
  edge_le : ∀ {k e}, g.edges.find? k = some e → k ≤ g.lastKey
  apart : ∀ {k n e}, g.nodes.find? k = some n → g.edges.find? k ≠ some e
  start : ∀ {k e}, g.edges.find? k = some e → ∃ n, g.nodes.find? e.start = some n
  finish : ∀ {k e}, g.edges.find? k = some e → ∃ n, g.nodes.find? e.finish = some n
  single : ∀ {k l e f}, g.edges.find? k = some e → g.edges.find? l = some f →
    f.joins e.edgeType e.start e.finish = true → k = l

/-- The graphs that arise from the empty one by adding nodes and by running statements. -/
inductive Reachable : Graph → Prop
  | empty : Reachable .empty
  | seed {g : Graph} (labels : List String) (r : Record) (hg : Reachable g) :
      Reachable (g.addNode ⟨.ofKeys labels, r⟩)
  | execute {g h : Graph} {now : Int} {statements : List BoundStatement} {affected : List Nat}
      (hg : Reachable g) (hrun : g.execute now statements = .ok (h, affected)) : Reachable h

variable {g h : Graph} {key : Nat}

theorem WellFormed.empty : WellFormed .empty := by
  constructor <;> simp [Graph.empty]

/-- The key that is given out next is no node's. -/
theorem WellFormed.node_ne_next (hg : g.WellFormed) {n : Node} (hn : g.nodes.find? key = some n) :
    key ≠ g.lastKey + 1 := by
  have hle := hg.node_le hn
  omega

/-- Nor is it an edge's. -/
theorem WellFormed.edge_ne_next (hg : g.WellFormed) {e : Edge} (he : g.edges.find? key = some e) :
    key ≠ g.lastKey + 1 := by
  have hle := hg.edge_le he
  omega

theorem WellFormed.find?_node_next (hg : g.WellFormed) : g.nodes.find? (g.lastKey + 1) = none :=
  Option.eq_none_iff_forall_ne_some.2 fun _ hn => hg.node_ne_next hn rfl

theorem WellFormed.find?_edge_next (hg : g.WellFormed) : g.edges.find? (g.lastKey + 1) = none :=
  Option.eq_none_iff_forall_ne_some.2 fun _ he => hg.edge_ne_next he rfl

theorem find?_nodes_addNode {n : Node} : (g.addNode n).nodes.find? key =
    if key = g.lastKey + 1 then some n else g.nodes.find? key := SortedMap.find?_insert _ _ _ _

theorem find?_edges_addEdge {e : Edge} : (g.addEdge e).edges.find? key =
    if key = g.lastKey + 1 then some e else g.edges.find? key := SortedMap.find?_insert _ _ _ _

theorem find?_nodes_setNode {place : Nat} {n : Node} : (g.setNode place n).nodes.find? key =
    if key = place then some n else g.nodes.find? key := SortedMap.find?_insert _ _ _ _

theorem find?_edges_setEdge {place : Nat} {e : Edge} : (g.setEdge place e).edges.find? key =
    if key = place then some e else g.edges.find? key := SortedMap.find?_insert _ _ _ _

theorem WellFormed.addNode (hg : g.WellFormed) (n : Node) : (g.addNode n).WellFormed := by
  have hkept : ∀ k m, g.nodes.find? k = some m → (g.addNode n).nodes.find? k = some m := by
    intro k m hm
    rw [find?_nodes_addNode, if_neg (hg.node_ne_next hm), hm]
  refine ⟨fun {k m} hm => ?_, fun he => Nat.le_succ_of_le (hg.edge_le he), fun {k m e} hm he => ?_,
    fun he => ?_, fun he => ?_, hg.single⟩
  · rw [find?_nodes_addNode] at hm
    split at hm
    · exact Nat.le_of_eq ‹_›
    · exact Nat.le_succ_of_le (hg.node_le hm)
  · rw [find?_nodes_addNode] at hm
    split at hm
    · have hle := hg.edge_le he
      omega
    · exact hg.apart hm he
  · obtain ⟨m, hm⟩ := hg.start he
    exact ⟨m, hkept _ _ hm⟩
  · obtain ⟨m, hm⟩ := hg.finish he
    exact ⟨m, hkept _ _ hm⟩

theorem WellFormed.setNode {n m : Node} (hg : g.WellFormed) (hn : g.nodes.find? key = some n) :
    (g.setNode key m).WellFormed := by
  have hkept : ∀ k x, g.nodes.find? k = some x → ∃ y, (g.setNode key m).nodes.find? k = some y := by
    intro k x hx
    rw [find?_nodes_setNode]
    split
    · exact ⟨m, rfl⟩
    · exact ⟨x, hx⟩
  have hold : ∀ k x, (g.setNode key m).nodes.find? k = some x → ∃ y, g.nodes.find? k = some y := by
    intro k x hx
    rw [find?_nodes_setNode] at hx
    split at hx
    · exact ⟨n, by rwa [‹k = key›]⟩
    · exact ⟨x, hx⟩
  refine ⟨fun hx => ?_, hg.edge_le, fun hx he => ?_, fun he => ?_, fun he => ?_, hg.single⟩
  · obtain ⟨y, hy⟩ := hold _ _ hx
    exact hg.node_le hy
  · obtain ⟨y, hy⟩ := hold _ _ hx
    exact hg.apart hy he
  · obtain ⟨x, hx⟩ := hg.start he
    exact hkept _ _ hx
  · obtain ⟨x, hx⟩ := hg.finish he
    exact hkept _ _ hx

theorem WellFormed.addEdge {e : Edge} (hg : g.WellFormed)
    (hf : g.findEdge e.edgeType e.start e.finish = none)
    (hstart : ∃ n, g.nodes.find? e.start = some n)
    (hfinish : ∃ n, g.nodes.find? e.finish = some n) : (g.addEdge e).WellFormed := by
  have hcases : ∀ k x, (g.addEdge e).edges.find? k = some x →
      (k = g.lastKey + 1 ∧ x = e) ∨ g.edges.find? k = some x := by
    intro k x hx
    rw [find?_edges_addEdge] at hx
    split at hx
    · exact .inl ⟨‹_›, (Option.some.inj hx).symm⟩
    · exact .inr hx
  have hnew := findEdge_eq_none_iff.1 hf
  refine ⟨fun hn => Nat.le_succ_of_le (hg.node_le hn), fun hx => ?_, fun hn hx => ?_, fun hx => ?_,
    fun hx => ?_, fun {k l x y} hx hy hj => ?_⟩
  · rcases hcases _ _ hx with ⟨rfl, -⟩ | hx
    · exact Nat.le_refl _
    · exact Nat.le_succ_of_le (hg.edge_le hx)
  · rcases hcases _ _ hx with ⟨rfl, -⟩ | hx
    · have hle := hg.node_le hn
      omega
    · exact hg.apart hn hx
  · rcases hcases _ _ hx with ⟨-, rfl⟩ | hx
    · exact hstart
    · exact hg.start hx
  · rcases hcases _ _ hx with ⟨-, rfl⟩ | hx
    · exact hfinish
    · exact hg.finish hx
  · rcases hcases _ _ hx with ⟨rfl, rfl⟩ | hold <;> rcases hcases _ _ hy with ⟨rfl, rfl⟩ | hold'
    · rfl
    · simp [hnew _ _ hold'] at hj
    · have hsym : x.joins y.edgeType y.start y.finish = true := by
        obtain ⟨h1, h2, h3⟩ := Edge.joins_iff.1 hj
        exact Edge.joins_iff.2 ⟨h1.symm, h2.symm, h3.symm⟩
      simp [hnew _ _ hold] at hsym
    · exact hg.single hold hold' hj

theorem WellFormed.setEdge {e : Edge} (r : Record) (hg : g.WellFormed)
    (he : g.edges.find? key = some e) :
    (g.setEdge key { e with properties := r }).WellFormed := by
  have hold : ∀ k x, (g.setEdge key { e with properties := r }).edges.find? k = some x →
      ∃ y, g.edges.find? k = some y ∧ x.edgeType = y.edgeType ∧ x.start = y.start ∧
        x.finish = y.finish := by
    intro k x hx
    rw [find?_edges_setEdge] at hx
    split at hx
    · cases hx
      exact ⟨e, by rwa [‹k = key›], rfl, rfl, rfl⟩
    · exact ⟨x, hx, rfl, rfl, rfl⟩
  refine ⟨hg.node_le, fun hx => ?_, fun hn hx => ?_, fun hx => ?_, fun hx => ?_,
    fun hx hy hj => ?_⟩
  · obtain ⟨y, hy, -⟩ := hold _ _ hx
    exact hg.edge_le hy
  · obtain ⟨y, hy, -⟩ := hold _ _ hx
    exact hg.apart hn hy
  · obtain ⟨y, hy, -, hs, -⟩ := hold _ _ hx
    rw [hs]
    exact hg.start hy
  · obtain ⟨y, hy, -, -, hf⟩ := hold _ _ hx
    rw [hf]
    exact hg.finish hy
  · obtain ⟨x, hx, h1, h2, h3⟩ := hold _ _ hx
    obtain ⟨y, hy, h1', h2', h3'⟩ := hold _ _ hy
    refine hg.single hx hy (Edge.joins_iff.2 ?_)
    rw [← h1, ← h2, ← h3, ← h1', ← h2', ← h3']
    exact Edge.joins_iff.1 hj

theorem WellFormed.touchEdge {now : Int} {edgeType : String} {start finish : Nat}
    {f : Record → Record} (hg : g.WellFormed) (hends : g.HasEnds (start, finish)) :
    (g.touchEdge now edgeType start finish f).WellFormed := by
  cases hfind : g.findEdge edgeType start finish with
  | none =>
    rw [touchEdge_of_absent hfind]
    exact hg.addEdge hfind hends.1 hends.2
  | some key =>
    obtain ⟨e, he, -⟩ := findEdge_eq_some hfind
    rw [touchEdge_of_found hfind he]
    exact hg.setEdge _ he

theorem WellFormed.removeNodes (hg : g.WellFormed) (keys : List Nat) :
    (g.removeNodes keys).WellFormed := by
  have hw := within_removeNodes g keys
  have hleft : ∀ k e, (g.removeNodes keys).edges.find? k = some e →
      e.start ∉ keys ∧ e.finish ∉ keys := by
    intro k e he
    rw [find?_edges_removeNodes, Option.filter_eq_some_iff] at he
    simpa using he.2
  have hkept : ∀ k n, k ∉ keys → g.nodes.find? k = some n →
      (g.removeNodes keys).nodes.find? k = some n := by
    intro k n hk hn
    rw [find?_nodes_removeNodes, if_neg hk, hn]
  refine ⟨fun hn => hg.node_le (hw.node hn), fun he => hg.edge_le (hw.edge he),
    fun hn he => hg.apart (hw.node hn) (hw.edge he), fun he => ?_, fun he => ?_,
    fun he hf hj => hg.single (hw.edge he) (hw.edge hf) hj⟩
  · obtain ⟨n, hn⟩ := hg.start (hw.edge he)
    exact ⟨n, hkept _ _ (hleft _ _ he).1 hn⟩
  · obtain ⟨n, hn⟩ := hg.finish (hw.edge he)
    exact ⟨n, hkept _ _ (hleft _ _ he).2 hn⟩

theorem WellFormed.removeEdges (hg : g.WellFormed) (keys : List Nat) :
    (g.removeEdges keys).WellFormed := by
  have hw := within_removeEdges g keys
  exact ⟨hg.node_le, fun he => hg.edge_le (hw.edge he), fun hn he => hg.apart hn (hw.edge he),
    fun he => hg.start (hw.edge he), fun he => hg.finish (hw.edge he),
    fun he hf hj => hg.single (hw.edge he) (hw.edge hf) hj⟩

theorem WellFormed.setIndexes (hg : g.WellFormed) (indexes : SortedSet IndexTarget) :
    { g with indexes := indexes }.WellFormed :=
  ⟨hg.node_le, hg.edge_le, hg.apart, hg.start, hg.finish, hg.single⟩

theorem WellFormed.step {now : Int} (hg : g.WellFormed) (hs : Step now g h) : h.WellFormed := by
  cases hs with
  | index target => exact hg.setIndexes _
  | addNode u params record hid hf => exact hg.addNode _
  | setNode u params record hid hf hn => exact hg.setNode hn
  | addEdge e hf hstart hfinish hseen => exact hg.addEdge hf hstart hfinish
  | setEdge r he hseen => exact hg.setEdge r he
  | removeNodes keys => exact hg.removeNodes keys
  | removeEdges keys => exact hg.removeEdges keys

theorem WellFormed.steps {now : Int} (hg : g.WellFormed) (hs : Steps now g h) : h.WellFormed := by
  induction hs with
  | refl => exact hg
  | tail _ hstep ih => exact ih.step hstep

theorem Reachable.wellFormed (hg : g.Reachable) : g.WellFormed := by
  induction hg with
  | empty => exact .empty
  | seed labels r _ ih => exact ih.addNode _
  | execute _ hrun ih => exact ih.steps (steps_of_execute hrun)

end GraphSync.Graph
