import GraphSync.Graph.Sweep

/-! Graphs from which parts are gone: what is found in what is left was found before. -/
namespace GraphSync

/-- A graph is part of another one: nothing is added, and what is left is unchanged. -/
structure Graph.Within (h g : Graph) : Prop where
  node : ∀ {key n}, h.nodes.find? key = some n → g.nodes.find? key = some n
  edge : ∀ {key e}, h.edges.find? key = some e → g.edges.find? key = some e
  indexes : h.indexes = g.indexes
  lastKey : h.lastKey = g.lastKey

namespace Graph

variable {g h : Graph} {params : Parameters} {label : String} {key : Nat}

theorem Within.refl (g : Graph) : g.Within g := ⟨id, id, rfl, rfl⟩

theorem Within.trans {i : Graph} (hi : i.Within h) (hg : h.Within g) : i.Within g :=
  ⟨fun hn => hg.node (hi.node hn), fun he => hg.edge (hi.edge he), hi.indexes.trans hg.indexes,
    hi.lastKey.trans hg.lastKey⟩

theorem within_removeNodes (g : Graph) (keys : List Nat) : (g.removeNodes keys).Within g := by
  refine ⟨fun {key n} hn => ?_, fun {key e} he => ?_, rfl, rfl⟩
  · rw [find?_nodes_removeNodes] at hn
    split at hn
    · cases hn
    · exact hn
  · rw [find?_edges_removeNodes, Option.filter_eq_some_iff] at he
    exact he.1

theorem within_removeEdges (g : Graph) (keys : List Nat) : (g.removeEdges keys).Within g := by
  refine ⟨id, fun {key e} he => ?_, rfl, rfl⟩
  rw [find?_edges_removeEdges] at he
  split at he
  · cases he
  · exact he

theorem Within.hasLabel (hw : h.Within g) (hl : h.hasLabel key label = true) :
    g.hasLabel key label = true := by
  obtain ⟨n, hn, hl⟩ := hasLabel_iff.1 hl
  exact hasLabel_iff.2 ⟨n, hw.node hn, hl⟩

theorem Within.isOwner {s : Scope} (hw : h.Within g) (ho : h.isOwner params s key = true) :
    g.isOwner params s key = true := by
  obtain ⟨n, hn, ho⟩ := isOwner_iff.1 ho
  exact isOwner_iff.2 ⟨n, hw.node hn, ho⟩

theorem Within.isOwned {s : Scope} (hw : h.Within g) (ho : h.isOwned params s key = true) :
    g.isOwned params s key = true := by
  obtain ⟨k, e, he, ht, hf, ho⟩ := isOwned_iff.1 ho
  exact isOwned_iff.2 ⟨k, e, hw.edge he, ht, hf, hw.isOwner ho⟩

/-- What is left of a graph has no more owners than the graph itself. -/
theorem Within.inScope {s : Option Scope} (hw : h.Within g)
    (hi : h.inScope params s key = true) : g.inScope params s key = true := by
  cases s with
  | none => rfl
  | some s => exact hw.isOwned hi

theorem Within.hasPattern {p : EdgePattern} {e : Edge} (hw : h.Within g)
    (hp : h.hasPattern label p e = true) : g.hasPattern label p e = true := by
  simp only [Graph.hasPattern, Bool.and_eq_true] at hp ⊢
  exact ⟨⟨hp.1.1, hw.hasLabel hp.1.2⟩, hw.hasLabel hp.2⟩

end Graph

end GraphSync
