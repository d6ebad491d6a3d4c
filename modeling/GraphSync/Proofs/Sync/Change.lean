import GraphSync.Proofs.Load.Written

/-! What one schema sees of a graph, and the changes that stay within what it describes. -/
namespace GraphSync

namespace NodeSchema

/-- The labels that the schema's edges lead to. -/
def targetLabels (s : NodeSchema) : List String := s.allEdges.map (·.target.label)

/-- A node of the schema. -/
def Describes (s : NodeSchema) (n : Node) : Prop := n.hasLabel s.label = true

/-- A node that the schema looks at: one of its own, or one that its edges may lead to. -/
def Sees (s : NodeSchema) (n : Node) : Prop :=
  ∃ l ∈ s.label :: s.targetLabels, n.hasLabel l = true

theorem Describes.sees {s : NodeSchema} {n : Node} (hd : s.Describes n) : s.Sees n :=
  ⟨s.label, List.mem_cons_self, hd⟩

end NodeSchema

namespace Graph

def DescribedBy (g : Graph) (s : NodeSchema) (key : Nat) : Prop :=
  ∃ n, g.nodes.find? key = some n ∧ s.Describes n

def SeenBy (g : Graph) (s : NodeSchema) (key : Nat) : Prop :=
  ∃ n, g.nodes.find? key = some n ∧ s.Sees n

/-- The ends of an edge that the schema can read and write: it sees both, and describes one. -/
def Spans (g : Graph) (s : NodeSchema) (start finish : Nat) : Prop :=
  g.SeenBy s start ∧ g.SeenBy s finish ∧ (g.DescribedBy s start ∨ g.DescribedBy s finish)

variable {g h i : Graph} {s : NodeSchema} {key start finish : Nat}

theorem DescribedBy.seenBy (hd : g.DescribedBy s key) : g.SeenBy s key := by
  obtain ⟨n, hn, hd⟩ := hd
  exact ⟨n, hn, hd.sees⟩

theorem Spans.hasEnds (hr : g.Spans s start finish) : g.HasEnds (start, finish) := by
  obtain ⟨⟨n, hn, -⟩, ⟨m, hm, -⟩, -⟩ := hr
  exact ⟨⟨n, hn⟩, m, hm⟩

theorem Spans.orient (hr : g.Spans s start finish) (d : Direction) :
    g.Spans s (d.orient start finish).1 (d.orient start finish).2 := by
  cases d with
  | inward => exact ⟨hr.2.1, hr.1, hr.2.2.symm⟩
  | outward => exact hr

theorem WellFormed.ends_le {e : Edge} (hg : g.WellFormed)
    (he : g.edges.find? key = some e) :
    e.start ≤ g.lastKey ∧ e.finish ≤ g.lastKey := by
  obtain ⟨n, hn⟩ := hg.start he
  obtain ⟨m, hm⟩ := hg.finish he
  exact ⟨hg.node_le hn, hg.node_le hm⟩

theorem spans_congr (hn : h.nodes = g.nodes) :
    h.Spans s start finish ↔ g.Spans s start finish := by
  simp only [Spans, SeenBy, DescribedBy, hn]

/-! Graphs that have the nodes that the schema sees under keys that correspond. -/

section
variable {σ : Nat → Nat}
  (hnode : ∀ {key n}, s.Sees n → (h.nodes.find? (σ key) = some n ↔ g.nodes.find? key = some n))
include hnode

theorem seenBy_iff_of_node : h.SeenBy s (σ key) ↔ g.SeenBy s key :=
  exists_congr fun _ => and_congr_left fun hs => hnode hs

theorem describedBy_iff_of_node : h.DescribedBy s (σ key) ↔ g.DescribedBy s key :=
  exists_congr fun _ => and_congr_left fun hd => hnode hd.sees

theorem spans_iff_of_node : h.Spans s (σ start) (σ finish) ↔ g.Spans s start finish := by
  rw [Spans, Spans, seenBy_iff_of_node hnode, seenBy_iff_of_node hnode,
    describedBy_iff_of_node hnode, describedBy_iff_of_node hnode]

end

end Graph

/-- A write or a removal, with the keys that it is about. -/
inductive Change where
  | index (targets : List IndexTarget)
  | addNode (n : Node)
  | setNode (key : Nat) (n : Node)
  | addEdge (e : Edge)
  | setEdge (key : Nat) (e : Edge)
  | removeNodes (keys : List Nat)
  | removeEdges (keys : List Nat)

def Change.apply (g : Graph) : Change → Graph
  | index targets => g.withIndexes targets
  | addNode n => g.addNode n
  | setNode key n => g.setNode key n
  | addEdge e => g.addEdge e
  | setEdge key e => g.setEdge key e
  | removeNodes keys => g.removeNodes keys
  | removeEdges keys => g.removeEdges keys

namespace NodeSchema

/-- A change that the schema may make: it writes nodes that it describes, gives them no labels but
its own, and writes and removes edges only between ends that it spans. -/
inductive Allows (s : NodeSchema) (g : Graph) : Change → Prop
  | index (targets : List IndexTarget) : Allows s g (.index targets)
  | addNode {n : Node} (hd : s.Describes n) (hl : ∀ l, n.hasLabel l = true → l ∈ s.labels) :
      Allows s g (.addNode n)
  | setNode {key : Nat} {n m : Node} (hm : g.nodes.find? key = some m) (hd : s.Describes m)
      (hkeep : ∀ l, m.hasLabel l = true → n.hasLabel l = true)
      (hl : ∀ l, n.hasLabel l = true → l ∈ s.labels ∨ m.hasLabel l = true) :
      Allows s g (.setNode key n)
  | addEdge {e : Edge} (hf : g.findEdge e.edgeType e.start e.finish = none)
      (hr : g.Spans s e.start e.finish) : Allows s g (.addEdge e)
  | setEdge {key : Nat} {e : Edge} (r : Record) (he : g.edges.find? key = some e)
      (hr : g.Spans s e.start e.finish) : Allows s g (.setEdge key { e with properties := r })
  | removeNodes {keys : List Nat} (hk : ∀ key ∈ keys, g.DescribedBy s key) :
      Allows s g (.removeNodes keys)
  | removeEdges {keys : List Nat}
      (hk : ∀ key ∈ keys, ∃ e, g.edges.find? key = some e ∧ g.Spans s e.start e.finish) :
      Allows s g (.removeEdges keys)

/-- What has changed is confined to the schema: other nodes are the same, nodes keep their labels
and get none but the schema's, and other edges are the same as long as both of their nodes are
there. -/
structure Confined (s : NodeSchema) (g h : Graph) : Prop where
  lastKey : g.lastKey ≤ h.lastKey
  node : ∀ {key n}, ¬ s.Describes n → (h.nodes.find? key = some n ↔ g.nodes.find? key = some n)
  grown : ∀ {key m}, h.nodes.find? key = some m → key ≤ g.lastKey →
    ∃ n, g.nodes.find? key = some n ∧ ∀ l, n.hasLabel l = true → m.hasLabel l = true
  origin : ∀ {key m l}, h.nodes.find? key = some m → m.hasLabel l = true →
    l ∈ s.labels ∨ ∃ n, g.nodes.find? key = some n ∧ n.hasLabel l = true
  edge : ∀ {key e}, g.edges.find? key = some e → ¬ g.Spans s e.start e.finish →
    h.HasEnds (e.start, e.finish) → h.edges.find? key = some e
  edge_old : ∀ {key e}, h.edges.find? key = some e → ¬ h.Spans s e.start e.finish →
    g.edges.find? key = some e

variable {s a b : NodeSchema} {g h i : Graph} {c : Change} {key start finish : Nat} {e : Edge}

theorem Confined.of_nodes_eq (hn : h.nodes = g.nodes) (hk : g.lastKey ≤ h.lastKey)
    (he : ∀ key e, ¬ g.Spans s e.start e.finish →
      (h.edges.find? key = some e ↔ g.edges.find? key = some e)) : s.Confined g h where
  lastKey := hk
  node _ := by rw [hn]
  grown hm _ := ⟨_, hn ▸ hm, fun _ hl => hl⟩
  origin hm hl := .inr ⟨_, hn ▸ hm, hl⟩
  edge hg hr _ := (he _ _ hr).2 hg
  edge_old hh hr := (he _ _ fun hg => hr ((Graph.spans_congr hn).2 hg)).1 hh

theorem Confined.refl (s : NodeSchema) (g : Graph) : s.Confined g g :=
  .of_nodes_eq rfl (Nat.le_refl _) fun _ _ _ => Iff.rfl

theorem confined_addNode {n : Node} (hg : g.WellFormed) (hd : s.Describes n)
    (hl : ∀ l, n.hasLabel l = true → l ∈ s.labels) : s.Confined g (g.addNode n) := by
  have hnew : ∀ k m, g.nodes.find? k = some m → k ≠ g.lastKey + 1 := fun k m =>
    hg.node_ne_next
  refine ⟨Nat.le_succ _, fun {k m} hm => ?_, fun {k m} hm hk => ?_, fun {k m l} hm hml => ?_,
    fun he _ _ => he, fun he _ => he⟩
  · rw [Graph.find?_nodes_addNode]
    split
    · next hk =>
      refine ⟨fun h => absurd (Option.some.inj h ▸ hd) hm, fun h => absurd hk (hnew k m h)⟩
    · exact Iff.rfl
  · rw [Graph.find?_nodes_addNode, if_neg (by omega)] at hm
    exact ⟨m, hm, fun _ hl => hl⟩
  · rw [Graph.find?_nodes_addNode] at hm
    split at hm
    · cases hm
      exact .inl (hl l hml)
    · exact .inr ⟨m, hm, hml⟩

theorem confined_setNode {n m : Node} (hm : g.nodes.find? key = some m) (hd : s.Describes m)
    (hkeep : ∀ l, m.hasLabel l = true → n.hasLabel l = true)
    (hl : ∀ l, n.hasLabel l = true → l ∈ s.labels ∨ m.hasLabel l = true) :
    s.Confined g (g.setNode key n) := by
  refine ⟨Nat.le_refl _, fun {k x} hx => ?_, fun {k x} hx hk => ?_, fun {k x l} hx hxl => ?_,
    fun he _ _ => he, fun he _ => he⟩
  · rw [Graph.find?_nodes_setNode]
    split
    · next hk =>
      subst hk
      rw [hm]
      refine ⟨fun h => ?_, fun h => ?_⟩
      · exact absurd (Option.some.inj h ▸ hkeep _ hd) hx
      · exact absurd (Option.some.inj h ▸ hd) hx
    · exact Iff.rfl
  · rw [Graph.find?_nodes_setNode] at hx
    split at hx
    · next hk =>
      cases hx
      exact ⟨m, hk ▸ hm, hkeep⟩
    · exact ⟨x, hx, fun _ hl => hl⟩
  · rw [Graph.find?_nodes_setNode] at hx
    split at hx
    · next hk =>
      cases hx
      exact (hl l hxl).imp_right fun h => ⟨m, hk ▸ hm, h⟩
    · exact .inr ⟨x, hx, hxl⟩

theorem confined_addEdge (hg : g.WellFormed) (hr : g.Spans s e.start e.finish) :
    s.Confined g (g.addEdge e) := by
  refine .of_nodes_eq rfl (Nat.le_succ _) fun k x hx => ?_
  rw [Graph.find?_edges_addEdge]
  split
  · next hk =>
    refine ⟨fun h => absurd (Option.some.inj h ▸ hr) hx, fun h => ?_⟩
    exact absurd (hg.edge_le h) (by omega)
  · exact Iff.rfl

theorem confined_setEdge (r : Record) (he : g.edges.find? key = some e)
    (hr : g.Spans s e.start e.finish) :
    s.Confined g (g.setEdge key { e with properties := r }) := by
  refine .of_nodes_eq rfl (Nat.le_refl _) fun k x hx => ?_
  rw [Graph.find?_edges_setEdge]
  split
  · next hk =>
    subst hk
    rw [he]
    refine ⟨fun h => ?_, fun h => ?_⟩
    · obtain rfl := Option.some.inj h
      exact absurd hr hx
    · exact absurd (Option.some.inj h ▸ hr) hx
  · exact Iff.rfl

theorem confined_removeNodes {keys : List Nat} (hk : ∀ key ∈ keys, g.DescribedBy s key) :
    s.Confined g (g.removeNodes keys) := by
  have hw := Graph.within_removeNodes g keys
  refine ⟨Nat.le_refl _, fun {k n} hn => ⟨hw.node, fun hkn => ?_⟩,
    fun hm _ => ⟨_, hw.node hm, fun _ hl => hl⟩, fun hm hl => .inr ⟨_, hw.node hm, hl⟩,
    fun {k e} he _ hends => ?_, fun he _ => hw.edge he⟩
  · have hout : k ∉ keys := fun hmem => by
      obtain ⟨m, hm, hd⟩ := hk k hmem
      exact hn (Option.some.inj (hkn.symm.trans hm) ▸ hd)
    rw [Graph.find?_nodes_removeNodes, if_neg hout, hkn]
  · obtain ⟨⟨n, hn⟩, m, hm⟩ := hends
    rw [Graph.find?_nodes_removeNodes] at hn hm
    have hstart : e.start ∉ keys := fun h => by simp [h] at hn
    have hfinish : e.finish ∉ keys := fun h => by simp [h] at hm
    rw [Graph.find?_edges_removeNodes, he]
    simp [hstart, hfinish]

theorem confined_removeEdges {keys : List Nat}
    (hk : ∀ key ∈ keys, ∃ e, g.edges.find? key = some e ∧ g.Spans s e.start e.finish) :
    s.Confined g (g.removeEdges keys) := by
  refine .of_nodes_eq rfl (Nat.le_refl _) fun k x hx => ?_
  refine ⟨fun h => (Graph.within_removeEdges g keys).edge h, fun hkx => ?_⟩
  have hout : k ∉ keys := fun hmem => by
    obtain ⟨e, he, hr⟩ := hk k hmem
    exact hx (Option.some.inj (hkx.symm.trans he) ▸ hr)
  rw [Graph.find?_edges_removeEdges, if_neg hout, hkx]

/-- One change stays within what the schema describes. -/
theorem Allows.confined (hg : g.WellFormed) (ha : s.Allows g c) : s.Confined g (c.apply g) := by
  cases ha with
  | index targets => exact .of_nodes_eq rfl (Nat.le_refl _) fun _ _ _ => Iff.rfl
  | addNode hd hl => exact confined_addNode hg hd hl
  | setNode hm hd hkeep hl => exact confined_setNode hm hd hkeep hl
  | addEdge hf hr => exact confined_addEdge hg hr
  | setEdge r he hr => exact confined_setEdge r he hr
  | removeNodes hk => exact confined_removeNodes hk
  | removeEdges hk => exact confined_removeEdges hk

theorem Allows.wellFormed (hg : g.WellFormed) (ha : s.Allows g c) : (c.apply g).WellFormed := by
  cases ha with
  | index targets => exact hg.setIndexes _
  | addNode hd hl => exact hg.addNode _
  | setNode hm hd hkeep hl => exact hg.setNode hm
  | addEdge hf hr => exact hg.addEdge hf hr.hasEnds.1 hr.hasEnds.2
  | setEdge r he hr => exact hg.setEdge r he
  | removeNodes hk => exact hg.removeNodes _
  | removeEdges hk => exact hg.removeEdges _

/-! A node that is there before and after is seen before exactly if it is seen after. -/

/-- What holds of the nodes that the schema describes and depends on nothing but labels, which are
not lost. -/
theorem Confined.exists_iff {P : Node → Prop} (hdescribed : ∀ n, s.Describes n → P n)
    (hlabels : ∀ n m : Node, (∀ l, n.hasLabel l = true → m.hasLabel l = true) → P n → P m)
    (hc : s.Confined g h) (hk : key ≤ g.lastKey) (hthere : ∃ m, h.nodes.find? key = some m) :
    (∃ m, h.nodes.find? key = some m ∧ P m) ↔ ∃ n, g.nodes.find? key = some n ∧ P n := by
  obtain ⟨m, hm⟩ := hthere
  obtain ⟨n, hn, hgrown⟩ := hc.grown hm hk
  constructor
  · rintro ⟨x, hx, hp⟩
    by_cases hd : s.Describes n
    · exact ⟨n, hn, hdescribed n hd⟩
    · exact ⟨n, hn, Option.some.inj (hx.symm.trans ((hc.node hd).2 hn)) ▸ hp⟩
  · rintro ⟨x, hx, hp⟩
    obtain rfl := Option.some.inj (hn.symm.trans hx)
    exact ⟨m, hm, hlabels _ _ hgrown hp⟩

theorem Confined.describedBy_iff (hc : s.Confined g h) (hk : key ≤ g.lastKey)
    (hthere : ∃ m, h.nodes.find? key = some m) : h.DescribedBy s key ↔ g.DescribedBy s key :=
  exists_iff (fun _ hd => hd) (fun _ _ hgrown => hgrown _) hc hk hthere

theorem Confined.seenBy_iff (hc : s.Confined g h) (hk : key ≤ g.lastKey)
    (hthere : ∃ m, h.nodes.find? key = some m) : h.SeenBy s key ↔ g.SeenBy s key := by
  refine exists_iff (fun _ => Describes.sees) (fun _ _ hgrown hsees => ?_) hc hk hthere
  obtain ⟨l, hl, hlabel⟩ := hsees
  exact ⟨l, hl, hgrown _ hlabel⟩

theorem Confined.spans_iff (hc : s.Confined g h) (hstart : start ≤ g.lastKey)
    (hfinish : finish ≤ g.lastKey) (hends : h.HasEnds (start, finish)) :
    h.Spans s start finish ↔ g.Spans s start finish := by
  rw [Graph.Spans, Graph.Spans, hc.seenBy_iff hstart hends.1, hc.seenBy_iff hfinish hends.2,
    hc.describedBy_iff hstart hends.1, hc.describedBy_iff hfinish hends.2]

theorem Confined.hasEnds (hc : s.Confined g h) (hstart : start ≤ g.lastKey)
    (hfinish : finish ≤ g.lastKey) (hends : h.HasEnds (start, finish)) :
    g.HasEnds (start, finish) := by
  obtain ⟨⟨n, hn⟩, m, hm⟩ := hends
  obtain ⟨n', hn', -⟩ := hc.grown hn hstart
  obtain ⟨m', hm', -⟩ := hc.grown hm hfinish
  exact ⟨⟨n', hn'⟩, m', hm'⟩

theorem Confined.trans (hg : g.WellFormed) (hh : h.WellFormed) (hi : i.WellFormed)
    (hgh : s.Confined g h) (hhi : s.Confined h i) : s.Confined g i := by
  refine ⟨Nat.le_trans hgh.lastKey hhi.lastKey, fun hn => (hhi.node hn).trans (hgh.node hn),
    fun hm hk => ?_, fun hm hl => ?_, fun he hr hends => ?_, fun he hr => ?_⟩
  · obtain ⟨n, hn, hgrown⟩ := hhi.grown hm (Nat.le_trans hk hgh.lastKey)
    obtain ⟨x, hx, hgrown'⟩ := hgh.grown hn hk
    exact ⟨x, hx, fun l hl => hgrown l (hgrown' l hl)⟩
  · rcases hhi.origin hm hl with hl | ⟨n, hn, hl⟩
    · exact .inl hl
    · exact hgh.origin hn hl
  · obtain ⟨hstart, hfinish⟩ := hg.ends_le he
    have hmid := hhi.hasEnds (Nat.le_trans hstart hgh.lastKey) (Nat.le_trans hfinish hgh.lastKey)
      hends
    have hrh := fun hspan => hr ((hgh.spans_iff hstart hfinish hmid).1 hspan)
    exact hhi.edge (hgh.edge he hr hmid) hrh hends
  · have hmid := hhi.edge_old he hr
    obtain ⟨hstart, hfinish⟩ := hh.ends_le hmid
    have hends : i.HasEnds (_, _) := ⟨hi.start he, hi.finish he⟩
    exact hgh.edge_old hmid fun hspan => hr ((hhi.spans_iff hstart hfinish hends).2 hspan)

/-- No node of the first schema is one that the second looks at. -/
def Parted (a b : NodeSchema) (g : Graph) : Prop :=
  ∀ key n, g.nodes.find? key = some n → a.Describes n → ¬ b.Sees n

/-- The first schema gives no label that the second looks at. -/
def GivesNone (a b : NodeSchema) : Prop := ∀ l ∈ a.labels, l ∉ b.label :: b.targetLabels

theorem Parted.confined (hab : a.GivesNone b) (hg : a.Parted b g) (hc : a.Confined g h) :
    a.Parted b h := by
  rintro key m hm hd ⟨l, hl, hlabel⟩
  rcases hc.origin hm hlabel with hgiven | ⟨n, hn, hold⟩
  · exact hab l hgiven hl
  · by_cases hdn : a.Describes n
    · exact hg key n hn hdn ⟨l, hl, hold⟩
    · exact hdn (Option.some.inj (hm.symm.trans ((hc.node hdn).2 hn)) ▸ hd)

end NodeSchema

end GraphSync
