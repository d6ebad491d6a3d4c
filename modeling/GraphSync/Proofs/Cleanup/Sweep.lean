import GraphSync.Statement.Compile
import GraphSync.Graph.Execute
import GraphSync.Proofs.Graph.Within

/-! Sweeps as what they find and what they take away, on graphs from which parts are gone. -/
namespace GraphSync

namespace Graph

variable {g : Graph} {params : Parameters} {tag : Json} {label : String} {key : Nat}

theorem removeNodes_nil (g : Graph) : g.removeNodes [] = g := by
  simp [removeNodes, SortedMap.filter_true]

theorem removeNodes_removeNodes (g : Graph) (keys more : List Nat) :
    (g.removeNodes keys).removeNodes more = g.removeNodes (keys ++ more) := by
  simp only [removeNodes, SortedMap.filter_filter, List.contains_append, Bool.not_or]
  congr 2
  · funext k _
    exact Bool.and_comm _ _
  · funext _ e
    cases keys.contains e.start <;> cases keys.contains e.finish <;>
      cases more.contains e.start <;> cases more.contains e.finish <;> rfl

theorem removeEdges_nil (g : Graph) : g.removeEdges [] = g := by
  simp [removeEdges, SortedMap.filter_true]

theorem removeEdges_removeEdges (g : Graph) (keys more : List Nat) :
    (g.removeEdges keys).removeEdges more = g.removeEdges (keys ++ more) := by
  simp only [removeEdges, SortedMap.filter_filter, List.contains_append, Bool.not_or]
  congr 2
  funext k _
  exact Bool.and_comm _ _

theorem mem_staleNodes {scope : Option Scope} :
    key ∈ g.staleNodes params tag label scope ↔ ∃ n, g.nodes.find? key = some n ∧
      n.hasLabel label = true ∧ n.properties.isStale tag = true ∧
        g.inScope params scope key = true := by
  simp only [staleNodes, List.mem_map, List.mem_filter, Bool.and_eq_true, Prod.exists,
    mem_labelled]
  constructor
  · rintro ⟨k, n, ⟨⟨hn, hl⟩, ht, hi⟩, rfl⟩
    exact ⟨n, hn, hl, ht, hi⟩
  · rintro ⟨n, hn, hl, ht, hi⟩
    exact ⟨key, n, ⟨⟨hn, hl⟩, ht, hi⟩, rfl⟩

theorem mem_staleEdges {p : Edge → Bool} :
    key ∈ g.staleEdges tag p ↔ ∃ e, g.edges.find? key = some e ∧
      e.properties.isStale tag = true ∧ p e = true := by
  simp only [staleEdges, List.mem_map, List.mem_filter, Bool.and_eq_true, Prod.exists,
    SortedMap.find?_eq_some_iff]
  constructor
  · rintro ⟨k, e, ⟨he, ht, hp⟩, rfl⟩
    exact ⟨e, he, ht, hp⟩
  · rintro ⟨e, he, ht, hp⟩
    exact ⟨key, e, ⟨he, ht, hp⟩, rfl⟩

theorem pairwise_staleNodes (g : Graph) (scope : Option Scope) :
    (g.staleNodes params tag label scope).Pairwise (· < ·) :=
  List.pairwise_map.2 ((g.nodes.ascending.filter _).filter _)

theorem pairwise_staleEdges (g : Graph) (p : Edge → Bool) :
    (g.staleEdges tag p).Pairwise (· < ·) :=
  List.pairwise_map.2 (g.edges.ascending.filter _)

end Graph

/-- A repeated removal: what it finds, in ascending order, and what is left without some of it.
It finds no more in a part of a graph than in the graph, and never again what is gone. -/
structure Sweep where
  targets : Graph → List Nat
  strike : Graph → List Nat → Graph
  ascending : ∀ g, (targets g).Pairwise (· < ·)
  within : ∀ g keys, (strike g keys).Within g
  strike_nil : ∀ g, strike g [] = g
  strike_strike : ∀ g keys more, strike (strike g keys) more = strike g (keys ++ more)
  smaller : ∀ {g keys key}, key ∈ targets g → key ∈ keys → (strike g keys).size < g.size
  gone : ∀ {g keys key}, key ∈ keys → key ∉ targets (strike g keys)
  mono : ∀ {g h key}, h.Within g → key ∈ targets h → key ∈ targets g

namespace Sweep

variable (params : Parameters) (tag : Json)

/-- The removal of stale nodes, with every edge at one of them. -/
def ofNodes (label : String) (scope : Option Scope) : Sweep where
  targets g := g.staleNodes params tag label scope
  strike := Graph.removeNodes
  ascending g := Graph.pairwise_staleNodes g scope
  within := Graph.within_removeNodes
  strike_nil := Graph.removeNodes_nil
  strike_strike := Graph.removeNodes_removeNodes
  smaller hk hm := by
    obtain ⟨n, hn, _⟩ := Graph.mem_staleNodes.1 hk
    exact Nat.add_lt_add_of_lt_of_le (SortedMap.size_filter_lt hn (by simpa using hm))
      (SortedMap.size_filter_le _ _)
  gone hm hk := by
    obtain ⟨n, hn, _⟩ := Graph.mem_staleNodes.1 hk
    simp [Graph.find?_nodes_removeNodes, hm] at hn
  mono hw hk := by
    obtain ⟨n, hn, hl, ht, hi⟩ := Graph.mem_staleNodes.1 hk
    exact Graph.mem_staleNodes.2 ⟨n, hw.node hn, hl, ht, hw.inScope hi⟩

/-- The removal of stale edges; the condition is read off the graph at hand. -/
def ofEdges (p : Graph → Edge → Bool)
    (hp : ∀ {g h e}, h.Within g → p h e = true → p g e = true) : Sweep where
  targets g := g.staleEdges tag (p g)
  strike := Graph.removeEdges
  ascending g := Graph.pairwise_staleEdges g (p g)
  within := Graph.within_removeEdges
  strike_nil := Graph.removeEdges_nil
  strike_strike := Graph.removeEdges_removeEdges
  smaller hk hm := by
    obtain ⟨e, he, _⟩ := Graph.mem_staleEdges.1 hk
    exact Nat.add_lt_add_left (SortedMap.size_filter_lt he (by simpa using hm)) _
  gone hm hk := by
    obtain ⟨e, he, _⟩ := Graph.mem_staleEdges.1 hk
    simp [Graph.find?_edges_removeEdges, hm] at he
  mono hw hk := by
    obtain ⟨e, he, ht, hc⟩ := Graph.mem_staleEdges.1 hk
    exact Graph.mem_staleEdges.2 ⟨e, hw.edge he, ht, hp hw hc⟩

end Sweep

namespace Graph.Within

variable {g h : Graph} {params : Parameters} {label : String} {e : Edge}

theorem isOwnership {s : Scope} (hw : h.Within g)
    (ho : h.isOwnership params label s e = true) : g.isOwnership params label s e = true := by
  simp only [Graph.isOwnership, Bool.and_eq_true] at ho ⊢
  exact ⟨⟨ho.1.1, hw.hasLabel ho.1.2⟩, hw.isOwner ho.2⟩

theorem isScopedEdge {scope : Option Scope} {p : EdgePattern} (hw : h.Within g)
    (hs : h.isScopedEdge params label scope p e = true) :
    g.isScopedEdge params label scope p e = true := by
  simp only [Graph.isScopedEdge, Bool.and_eq_true] at hs ⊢
  exact ⟨hw.hasPattern hs.1, hw.inScope hs.2⟩

theorem isAttributed {s : LinkSweep} (hw : h.Within g)
    (ha : h.isAttributed params s e = true) : g.isAttributed params s e = true := by
  simp only [Graph.isAttributed, Bool.and_eq_true] at ha ⊢
  exact ⟨⟨hw.hasPattern ha.1.1, ha.1.2⟩, ha.2⟩

end Graph.Within

/-- What a statement removes when it is repeated; none if it is no sweep. -/
def Statement.sweep? (params : Parameters) (tag : Json) : Statement → Option Sweep
  | .sweepNodes label scope => some (.ofNodes params tag label scope)
  | .sweepOwnership label scope =>
    some (.ofEdges tag (fun g => g.isOwnership params label scope) Graph.Within.isOwnership)
  | .sweepEdges label scope edge =>
    some (.ofEdges tag (fun g => g.isScopedEdge params label scope edge)
      Graph.Within.isScopedEdge)
  | .sweepLinks s =>
    some (.ofEdges tag (fun g => g.isAttributed params s) Graph.Within.isAttributed)
  | _ => none

/-- Applied once, a sweep takes away the first of what it finds and counts it. -/
theorem Graph.apply_sweep {now : Int} {g : Graph} {s : Statement} {params : Parameters}
    {tag : Json} {size : Nat} {w : Sweep} (hw : s.sweep? params tag = some w)
    (htag : params.find? Names.sweepTag = some tag)
    (hsize : Parameters.pageSize params = .ok size) :
    g.apply now s params =
      .ok (w.strike g ((w.targets g).take size), ((w.targets g).take size).length) := by
  have hreq : Parameters.require params Names.sweepTag = .ok tag := by
    simp [Parameters.require, htag]
  cases s <;> cases hw <;>
    simp [Graph.apply, Graph.sweepNodes, Graph.sweepEdgesWhere, Graph.sweepPage, hreq, hsize,
      bind, Except.bind, pure, Except.pure, Sweep.ofNodes, Sweep.ofEdges]

end GraphSync
