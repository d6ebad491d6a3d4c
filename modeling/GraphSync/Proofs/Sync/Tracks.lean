import Mathlib.Order.Monotone.Basic
import GraphSync.Proofs.Sync.Change

/-! Two graphs that look the same to one schema, but for their keys. -/
namespace GraphSync

/-- The edge between the renamed nodes. -/
def Edge.rename (σ : Nat → Nat) (e : Edge) : Edge :=
  { e with start := σ e.start, finish := σ e.finish }

/-- The same change, of what the keys are renamed to. -/
def Change.rename (σ : Nat → Nat) : Change → Change
  | index targets => .index targets
  | addNode n => .addNode n
  | setNode key n => .setNode (σ key) n
  | addEdge e => .addEdge (e.rename σ)
  | setEdge key e => .setEdge (σ key) (e.rename σ)
  | removeNodes keys => .removeNodes (keys.map σ)
  | removeEdges keys => .removeEdges (keys.map σ)

namespace NodeSchema

/-- The second graph has what the schema sees of the first, under renamed keys, and nothing else
that it sees. A renaming keeps the order of keys, and takes the next key of the one graph to the
next key of the other. -/
structure Tracks (s : NodeSchema) (σ : Nat → Nat) (x y : Graph) : Prop where
  mono : StrictMono σ
  left : x.WellFormed
  right : y.WellFormed
  next : ∀ d, σ (x.lastKey + 1 + d) = y.lastKey + 1 + d
  node : ∀ {key n}, s.Sees n → (y.nodes.find? (σ key) = some n ↔ x.nodes.find? key = some n)
  node_range : ∀ {key n}, y.nodes.find? key = some n → s.Sees n → ∃ k, σ k = key
  edge : ∀ {key} {e : Edge}, x.Spans s e.start e.finish →
    (y.edges.find? (σ key) = some (e.rename σ) ↔ x.edges.find? key = some e)
  edge_range : ∀ {key f}, y.edges.find? key = some f → y.Spans s f.start f.finish →
    ∃ k, ∃ e : Edge, σ k = key ∧ e.rename σ = f

namespace Tracks

variable {s : NodeSchema} {σ : Nat → Nat} {x y x' y' : Graph} {key start finish : Nat}
  {params : Parameters} {record : Record} {label edgeType : String}

theorem eq_iff (ht : s.Tracks σ x y) {k l : Nat} : σ k = σ l ↔ k = l := ht.mono.injective.eq_iff

theorem rename_eq_iff (ht : s.Tracks σ x y) {e f : Edge} : e.rename σ = f.rename σ ↔ e = f := by
  obtain ⟨_, _, _, _⟩ := e
  obtain ⟨_, _, _, _⟩ := f
  simp only [Edge.rename, Edge.mk.injEq, ht.eq_iff]

theorem next_key (ht : s.Tracks σ x y) : σ (x.lastKey + 1) = y.lastKey + 1 := ht.next 0

theorem next_succ (ht : s.Tracks σ x y) (d : Nat) :
    σ (x.lastKey + 1 + 1 + d) = y.lastKey + 1 + 1 + d := by
  have hx : x.lastKey + 1 + 1 + d = x.lastKey + 1 + (d + 1) := by omega
  rw [hx, ht.next]
  omega

/-- A graph looks the same to a schema as itself. -/
theorem refl (s : NodeSchema) {x : Graph} (hx : x.WellFormed) : s.Tracks id x x where
  mono := strictMono_id
  left := hx
  right := hx
  next _ := rfl
  node _ := Iff.rfl
  node_range _ _ := ⟨_, rfl⟩
  edge _ := Iff.rfl
  edge_range _ _ := ⟨_, _, rfl, rfl⟩

theorem exists_node (ht : s.Tracks σ x y) {n : Node} (hn : y.nodes.find? key = some n)
    (hs : s.Sees n) : ∃ k, σ k = key ∧ x.nodes.find? k = some n := by
  obtain ⟨k, rfl⟩ := ht.node_range hn hs
  exact ⟨k, rfl, (ht.node hs).1 hn⟩

theorem describedBy_iff (ht : s.Tracks σ x y) :
    y.DescribedBy s (σ key) ↔ x.DescribedBy s key := Graph.describedBy_iff_of_node ht.node

theorem spans_iff (ht : s.Tracks σ x y) :
    y.Spans s (σ start) (σ finish) ↔ x.Spans s start finish := Graph.spans_iff_of_node ht.node

theorem exists_edge (ht : s.Tracks σ x y) {f : Edge} (hf : y.edges.find? key = some f)
    (hr : y.Spans s f.start f.finish) : ∃ k, ∃ e : Edge, σ k = key ∧ e.rename σ = f ∧
      x.edges.find? k = some e ∧ x.Spans s e.start e.finish := by
  obtain ⟨k, e, rfl, rfl⟩ := ht.edge_range hf hr
  have hspans : x.Spans s e.start e.finish := ht.spans_iff.1 hr
  exact ⟨k, e, rfl, rfl, (ht.edge hspans).1 hf, hspans⟩

/-! What is looked up in the one graph is found in the other under its renamed key. -/

theorem joins_rename (ht : s.Tracks σ x y) {e : Edge} :
    (e.rename σ).joins edgeType (σ start) (σ finish) = e.joins edgeType start finish := by
  rw [Bool.eq_iff_iff, Edge.joins_iff, Edge.joins_iff, Edge.rename, ht.eq_iff, ht.eq_iff]

theorem findEdge (ht : s.Tracks σ x y) (hr : x.Spans s start finish) :
    y.findEdge edgeType (σ start) (σ finish) = (x.findEdge edgeType start finish).map σ := by
  cases hf : x.findEdge edgeType start finish with
  | some key =>
    obtain ⟨e, he, hj⟩ := Graph.findEdge_eq_some hf
    obtain ⟨rfl, rfl, rfl⟩ := Edge.joins_iff.1 hj
    have hy := (ht.edge hr).2 he
    have hj' : (e.rename σ).joins e.edgeType (σ e.start) (σ e.finish) = true := by
      rw [ht.joins_rename, hj]
    cases hfind : y.findEdge e.edgeType (σ e.start) (σ e.finish) with
    | none => exact absurd hj' (Bool.eq_false_iff.1 (Graph.findEdge_eq_none_iff.1 hfind _ _ hy))
    | some other =>
      obtain ⟨f, hfy, hjf⟩ := Graph.findEdge_eq_some hfind
      rw [Option.map_some, ht.right.single hy hfy hjf]
  | none =>
    refine Graph.findEdge_eq_none_iff.2 fun k f hfy => Bool.eq_false_iff.2 fun hj => ?_
    obtain ⟨rfl, hstart, hfinish⟩ := Edge.joins_iff.1 hj
    have hspans : y.Spans s f.start f.finish := by
      rw [hstart, hfinish]
      exact ht.spans_iff.2 hr
    obtain ⟨k, e, rfl, rfl, he, -⟩ := ht.exists_edge hfy hspans
    have hnone := Graph.findEdge_eq_none_iff.1 hf k e he
    rw [← ht.joins_rename, hj] at hnone
    cases hnone

/-- Nodes of a label that the schema looks at, in the order of their keys. -/
theorem labelled (ht : s.Tracks σ x y) (hl : label ∈ s.label :: s.targetLabels) :
    y.labelled label = (x.labelled label).map fun b => (σ b.1, b.2) := by
  have hsorted : ((x.labelled label).map fun b => (σ b.1, b.2)).Pairwise fun a b => a.1 < b.1 :=
    List.pairwise_map.2 ((x.nodes.ascending.filter _).imp fun h => ht.mono h)
  let ys : SortedMap Nat Node := ⟨y.labelled label, y.nodes.ascending.filter _⟩
  let xs : SortedMap Nat Node := ⟨(x.labelled label).map fun b => (σ b.1, b.2), hsorted⟩
  refine congrArg SortedMap.entries (SortedMap.find?_ext (m := ys) (n := xs) fun key => ?_)
  refine Option.ext fun n => ?_
  rw [SortedMap.find?_eq_some_iff, SortedMap.find?_eq_some_iff, Graph.mem_labelled, List.mem_map]
  constructor
  · rintro ⟨hn, hlabel⟩
    obtain ⟨k, rfl, hk⟩ := ht.exists_node hn ⟨label, hl, hlabel⟩
    exact ⟨(k, n), Graph.mem_labelled.2 ⟨hk, hlabel⟩, rfl⟩
  · rintro ⟨⟨k, m⟩, hm, heq⟩
    obtain ⟨rfl, rfl⟩ := Prod.mk.inj heq
    obtain ⟨hk, hlabel⟩ := Graph.mem_labelled.1 hm
    exact ⟨(ht.node ⟨label, hl, hlabel⟩).2 hk, hlabel⟩

theorem findNode (ht : s.Tracks σ x y) (id : Json) :
    y.findNode s.label id = (x.findNode s.label id).map σ := by
  simp only [Graph.findNode, ht.labelled List.mem_cons_self, List.find?_map, Option.map_map]
  rfl

theorem matching (ht : s.Tracks σ x y) {p : Endpoint} (hp : p.label ∈ s.targetLabels) :
    y.matching record params p = (x.matching record params p).map σ := by
  simp only [Graph.matching, ht.labelled (List.mem_cons_of_mem _ hp), List.filter_map,
    List.map_map, List.map_flatMap]
  rfl

theorem mem_targetLabels {e : EdgeSchema} (he : e ∈ s.allEdges) :
    e.target.label ∈ s.targetLabels := List.mem_map_of_mem he

theorem edgeRows (ht : s.Tracks σ x y) {e : EdgeSchema} (he : e ∈ s.allEdges) :
    y.edgeRows (s.edgeUpsert e) params record =
      (x.edgeRows (s.edgeUpsert e) params record).map (Prod.map σ σ) := by
  have hfind : ∀ id, y.findNode (s.edgeUpsert e).nodeLabel id =
      (x.findNode (s.edgeUpsert e).nodeLabel id).map σ := ht.findNode
  have hmatch : y.matching record params e.target = (x.matching record params e.target).map σ :=
    ht.matching (mem_targetLabels he)
  simp only [Graph.edgeRows]
  cases hid : (s.edgeUpsert e).nodeId.resolve record params with
  | none => rfl
  | some id =>
    rw [Option.bind_some, Option.bind_some, hfind]
    cases x.findNode (s.edgeUpsert e).nodeLabel id with
    | none => rfl
    | some key =>
      change (y.matching record params e.target).map _ = _
      rw [hmatch, List.map_map, List.map_map]
      rfl

theorem hasLabel (ht : s.Tracks σ x y) (hl : label ∈ s.label :: s.targetLabels) :
    y.hasLabel (σ key) label = x.hasLabel key label := by
  rw [Bool.eq_iff_iff, Graph.hasLabel_iff, Graph.hasLabel_iff]
  exact exists_congr fun n => and_congr_left fun hlabel => ht.node ⟨label, hl, hlabel⟩

theorem isOwner (ht : s.Tracks σ x y) {scope : Scope} (hs : scope.owner.label ∈ s.targetLabels) :
    y.isOwner params scope (σ key) = x.isOwner params scope key := by
  rw [Bool.eq_iff_iff, Graph.isOwner_iff, Graph.isOwner_iff]
  refine exists_congr fun n => and_congr_left fun hn => ht.node ?_
  exact ⟨scope.owner.label, List.mem_cons_of_mem _ hs, hn.1⟩

theorem seenBy_of_isOwner {scope : Scope} (hs : scope.owner.label ∈ s.targetLabels)
    (ho : x.isOwner params scope key = true) : x.SeenBy s key := by
  obtain ⟨n, hn, hl, -⟩ := Graph.isOwner_iff.1 ho
  exact ⟨n, hn, _, List.mem_cons_of_mem _ hs, hl⟩

/-- Whether a node of the schema is owned is read off edges that the schema spans. -/
theorem isOwned (ht : s.Tracks σ x y) {scope : Scope} (hs : scope.owner.label ∈ s.targetLabels)
    (hd : x.DescribedBy s key) :
    y.isOwned params scope (σ key) = x.isOwned params scope key := by
  rw [Bool.eq_iff_iff, Graph.isOwned_iff, Graph.isOwned_iff]
  constructor
  · rintro ⟨l, f, hf, htype, hfinish, howner⟩
    have hd' : y.DescribedBy s f.finish := hfinish ▸ ht.describedBy_iff.2 hd
    obtain ⟨k, e, rfl, rfl, he, -⟩ :=
      ht.exists_edge hf ⟨seenBy_of_isOwner hs howner, hd'.seenBy, .inr hd'⟩
    exact ⟨k, e, he, htype, ht.eq_iff.1 hfinish, (ht.isOwner hs).symm.trans howner⟩
  · rintro ⟨k, e, he, htype, rfl, howner⟩
    have hspans : x.Spans s e.start e.finish :=
      ⟨seenBy_of_isOwner hs howner, hd.seenBy, .inr hd⟩
    exact ⟨σ k, e.rename σ, (ht.edge hspans).2 he, htype, rfl, (ht.isOwner hs).trans howner⟩

theorem inScope (ht : s.Tracks σ x y) (hd : x.DescribedBy s key) :
    y.inScope params s.scope (σ key) = x.inScope params s.scope key := by
  cases hs : s.scope with
  | none => rfl
  | some scope =>
    obtain ⟨o, ho, rfl⟩ := Option.map_eq_some_iff.1 hs
    refine ht.isOwned ?_ hd
    rw [scopingEdge] at ho
    split at ho
    · exact mem_targetLabels (List.mem_append_right _ (Option.mem_toList.2 ho))
    · cases ho

/-! Changes that mirror each other. -/

theorem allows_rename (ht : s.Tracks σ x y) {c : Change} (ha : s.Allows x c) :
    s.Allows y (c.rename σ) := by
  cases ha with
  | index targets => exact .index targets
  | addNode hd hl => exact .addNode hd hl
  | setNode hm hd hkeep hl => exact .setNode ((ht.node hd.sees).2 hm) hd hkeep hl
  | addEdge hf hr =>
    refine .addEdge ?_ (ht.spans_iff.2 hr)
    exact (ht.findEdge hr).trans (congrArg (Option.map σ) hf)
  | setEdge r he hr => exact .setEdge r ((ht.edge hr).2 he) (ht.spans_iff.2 hr)
  | removeNodes hk =>
    refine .removeNodes fun key hkey => ?_
    obtain ⟨k, hmem, rfl⟩ := List.mem_map.1 hkey
    exact ht.describedBy_iff.2 (hk k hmem)
  | removeEdges hk =>
    refine .removeEdges fun key hkey => ?_
    obtain ⟨k, hmem, rfl⟩ := List.mem_map.1 hkey
    obtain ⟨e, he, hr⟩ := hk k hmem
    exact ⟨e.rename σ, (ht.edge hr).2 he, ht.spans_iff.2 hr⟩

/-- Graphs keep looking the same while changes of nodes are mirrored and edges only go with them. -/
theorem of_kept (ht : s.Tracks σ x y) (hx : x'.WellFormed) (hy : y'.WellFormed)
    (hcx : s.Confined x x') (hcy : s.Confined y y')
    (hnext : ∀ d, σ (x'.lastKey + 1 + d) = y'.lastKey + 1 + d)
    (hnode : ∀ {key n}, s.Sees n →
      (y'.nodes.find? (σ key) = some n ↔ x'.nodes.find? key = some n))
    (hrange : ∀ {key n}, y'.nodes.find? key = some n → s.Sees n → ∃ k, σ k = key)
    (hex : ∀ {k e}, x'.edges.find? k = some e → x.edges.find? k = some e)
    (hey : ∀ {k f}, y'.edges.find? k = some f → y.edges.find? k = some f)
    (hsame : ∀ {k} {e : Edge}, x.edges.find? k = some e → y.edges.find? (σ k) = some (e.rename σ) →
      (y'.edges.find? (σ k) = some (e.rename σ) ↔ x'.edges.find? k = some e)) :
    s.Tracks σ x' y' := by
  have hbefore : ∀ {k f}, y'.edges.find? k = some f → y'.Spans s f.start f.finish →
      y.Spans s f.start f.finish := fun hf hr => by
    obtain ⟨hstart, hfinish⟩ := ht.right.ends_le (hey hf)
    exact (hcy.spans_iff hstart hfinish hr.hasEnds).1 hr
  refine ⟨ht.mono, hx, hy, hnext, hnode, hrange, fun {k e} hr => ⟨fun hf => ?_, fun he => ?_⟩,
    fun hf hr => ht.edge_range (hey hf) (hbefore hf hr)⟩
  · have hspan := ht.spans_iff.1 (hbefore hf ((Graph.spans_iff_of_node hnode).2 hr))
    exact (hsame ((ht.edge hspan).1 (hey hf)) (hey hf)).1 hf
  · obtain ⟨hstart, hfinish⟩ := ht.left.ends_le (hex he)
    have hspan := (hcx.spans_iff hstart hfinish hr.hasEnds).1 hr
    exact (hsame (hex he) ((ht.edge hspan).2 (hex he))).2 he

/-- Graphs keep looking the same while their nodes stay and changes of edges are mirrored. -/
theorem of_nodes_eq (ht : s.Tracks σ x y) (hx : x'.WellFormed) (hy : y'.WellFormed)
    (hnx : x'.nodes = x.nodes) (hny : y'.nodes = y.nodes)
    (hnext : ∀ d, σ (x'.lastKey + 1 + d) = y'.lastKey + 1 + d)
    (hedge : ∀ {key} {e : Edge}, x.Spans s e.start e.finish →
      (y'.edges.find? (σ key) = some (e.rename σ) ↔ x'.edges.find? key = some e))
    (hrange : ∀ {key f}, y'.edges.find? key = some f → y.Spans s f.start f.finish →
      ∃ k, ∃ e : Edge, σ k = key ∧ e.rename σ = f) : s.Tracks σ x' y' where
  mono := ht.mono
  left := hx
  right := hy
  next := hnext
  node hs := by
    rw [hnx, hny]
    exact ht.node hs
  node_range hn hs := ht.node_range (hny ▸ hn) hs
  edge hr := hedge ((Graph.spans_congr hnx).1 hr)
  edge_range hf hr := hrange hf ((Graph.spans_congr hny).1 hr)

theorem addNode (ht : s.Tracks σ x y) {n : Node} (hx : s.Allows x (.addNode n))
    (hy : s.Allows y (.addNode n)) : s.Tracks σ (x.addNode n) (y.addNode n) := by
  have hkey : ∀ {key}, σ key = y.lastKey + 1 ↔ key = x.lastKey + 1 := fun {key} =>
    ht.next_key ▸ ht.eq_iff
  refine ht.of_kept (hx.wellFormed ht.left) (hy.wellFormed ht.right) (hx.confined ht.left)
    (hy.confined ht.right) ht.next_succ (fun {key m} hs => ?_) (fun {key m} hm hs => ?_) id id
    fun he hf => ⟨fun _ => he, fun _ => hf⟩
  · rw [Graph.find?_nodes_addNode, Graph.find?_nodes_addNode]
    by_cases hk : key = x.lastKey + 1
    · rw [if_pos hk, if_pos (hkey.2 hk)]
    · rw [if_neg hk, if_neg fun h => hk (hkey.1 h)]
      exact ht.node hs
  · rw [Graph.find?_nodes_addNode] at hm
    split at hm
    · next hk => exact ⟨_, ht.next_key.trans hk.symm⟩
    · exact ht.node_range hm hs

theorem setNode (ht : s.Tracks σ x y) {n : Node} (hx : s.Allows x (.setNode key n))
    (hy : s.Allows y (.setNode (σ key) n)) :
    s.Tracks σ (x.setNode key n) (y.setNode (σ key) n) := by
  refine ht.of_kept (hx.wellFormed ht.left) (hy.wellFormed ht.right) (hx.confined ht.left)
    (hy.confined ht.right) ht.next (fun {k m} hs => ?_) (fun {k m} hm hs => ?_) id id
    fun he hf => ⟨fun _ => he, fun _ => hf⟩
  · rw [Graph.find?_nodes_setNode, Graph.find?_nodes_setNode]
    by_cases hk : k = key
    · rw [if_pos hk, if_pos (congrArg σ hk)]
    · rw [if_neg hk, if_neg fun h => hk (ht.eq_iff.1 h)]
      exact ht.node hs
  · rw [Graph.find?_nodes_setNode] at hm
    split at hm
    · next hk => exact ⟨key, hk.symm⟩
    · exact ht.node_range hm hs

theorem mem_map_iff (ht : s.Tracks σ x y) {keys : List Nat} : σ key ∈ keys.map σ ↔ key ∈ keys :=
  List.mem_map_of_injective ht.mono.injective

theorem removeNodes (ht : s.Tracks σ x y) {keys : List Nat} (hx : s.Allows x (.removeNodes keys))
    (hy : s.Allows y (.removeNodes (keys.map σ))) :
    s.Tracks σ (x.removeNodes keys) (y.removeNodes (keys.map σ)) := by
  refine ht.of_kept (hx.wellFormed ht.left) (hy.wellFormed ht.right) (hx.confined ht.left)
    (hy.confined ht.right) ht.next (fun {k m} hs => ?_)
    (fun hm hs => ht.node_range ((Graph.within_removeNodes _ _).node hm) hs)
    (Graph.within_removeNodes _ _).edge (Graph.within_removeNodes _ _).edge fun {k e} he hf => ?_
  · rw [Graph.find?_nodes_removeNodes, Graph.find?_nodes_removeNodes]
    by_cases hk : k ∈ keys
    · rw [if_pos hk, if_pos (ht.mem_map_iff.2 hk)]
    · rw [if_neg hk, if_neg fun h => hk (ht.mem_map_iff.1 h)]
      exact ht.node hs
  · rw [Graph.find?_edges_removeNodes, Graph.find?_edges_removeNodes, he, hf]
    simp [Option.filter_eq_some_iff, Edge.rename, ht.eq_iff]

theorem addEdge (ht : s.Tracks σ x y) {e : Edge} (hx : s.Allows x (.addEdge e))
    (hy : s.Allows y (.addEdge (e.rename σ))) :
    s.Tracks σ (x.addEdge e) (y.addEdge (e.rename σ)) := by
  have hkey : ∀ {key}, σ key = y.lastKey + 1 ↔ key = x.lastKey + 1 := fun {key} =>
    ht.next_key ▸ ht.eq_iff
  refine ht.of_nodes_eq (hx.wellFormed ht.left) (hy.wellFormed ht.right) rfl rfl ht.next_succ
    (fun {key f} hr => ?_) (fun {key f} hf hr => ?_)
  · rw [Graph.find?_edges_addEdge, Graph.find?_edges_addEdge]
    by_cases hk : key = x.lastKey + 1
    · rw [if_pos hk, if_pos (hkey.2 hk), Option.some_inj, Option.some_inj, ht.rename_eq_iff]
    · rw [if_neg hk, if_neg fun h => hk (hkey.1 h)]
      exact ht.edge hr
  · rw [Graph.find?_edges_addEdge] at hf
    split at hf
    · next hk => exact ⟨_, e, ht.next_key.trans hk.symm, Option.some.inj hf⟩
    · exact ht.edge_range hf hr

theorem setEdge (ht : s.Tracks σ x y) {e : Edge} (hx : s.Allows x (.setEdge key e))
    (hy : s.Allows y (.setEdge (σ key) (e.rename σ))) :
    s.Tracks σ (x.setEdge key e) (y.setEdge (σ key) (e.rename σ)) := by
  refine ht.of_nodes_eq (hx.wellFormed ht.left) (hy.wellFormed ht.right) rfl rfl ht.next
    (fun {k f} hr => ?_) (fun {k f} hf hr => ?_)
  · rw [Graph.find?_edges_setEdge, Graph.find?_edges_setEdge]
    by_cases hk : k = key
    · rw [if_pos hk, if_pos (congrArg σ hk), Option.some_inj, Option.some_inj, ht.rename_eq_iff]
    · rw [if_neg hk, if_neg fun h => hk (ht.eq_iff.1 h)]
      exact ht.edge hr
  · rw [Graph.find?_edges_setEdge] at hf
    split at hf
    · next hk => exact ⟨key, e, hk.symm, Option.some.inj hf⟩
    · exact ht.edge_range hf hr

theorem removeEdges (ht : s.Tracks σ x y) {keys : List Nat} (hx : s.Allows x (.removeEdges keys))
    (hy : s.Allows y (.removeEdges (keys.map σ))) :
    s.Tracks σ (x.removeEdges keys) (y.removeEdges (keys.map σ)) := by
  refine ht.of_nodes_eq (hx.wellFormed ht.left) (hy.wellFormed ht.right) rfl rfl ht.next
    (fun {k f} hr => ?_)
    (fun hf hr => ht.edge_range ((Graph.within_removeEdges _ _).edge hf) hr)
  rw [Graph.find?_edges_removeEdges, Graph.find?_edges_removeEdges]
  by_cases hk : k ∈ keys
  · rw [if_pos hk, if_pos (ht.mem_map_iff.2 hk)]
    simp
  · rw [if_neg hk, if_neg fun h => hk (ht.mem_map_iff.1 h)]
    exact ht.edge hr

/-- Graphs that look the same to a schema still do after one of its changes is made to both. -/
theorem change (ht : s.Tracks σ x y) {c : Change} (ha : s.Allows x c) :
    s.Tracks σ (c.apply x) ((c.rename σ).apply y) := by
  have hy := ht.allows_rename ha
  cases c with
  | index targets =>
    exact ht.of_nodes_eq (ha.wellFormed ht.left) (hy.wellFormed ht.right) rfl rfl ht.next ht.edge
      ht.edge_range
  | addNode n => exact ht.addNode ha hy
  | setNode key n => exact ht.setNode ha hy
  | addEdge e => exact ht.addEdge ha hy
  | setEdge key e => exact ht.setEdge ha hy
  | removeNodes keys => exact ht.removeNodes ha hy
  | removeEdges keys => exact ht.removeEdges ha hy

end Tracks

end NodeSchema

end GraphSync
