import Mathlib.Data.List.Find
import Mathlib.Data.List.Nodup
import Mathlib.Logic.Function.Basic
import GraphSync.Proofs.Graph.WellFormed

/-! Graphs apart from their keys: nodes in the order of their creation, edges by type and ends. -/
namespace GraphSync

/-- The type of an edge and the ranks of its ends. -/
abbrev Place := String × Nat × Nat

/-- The properties of the edge at every place that has one. -/
abbrev Links := Place → Option Record

namespace Links

/-- Writes the properties at a place, where an edge is created if there is none. -/
def touch (now : Int) (place : Place) (f : Record → Record) (x : Links) : Links :=
  Function.update x place (some (f ((x place).getD (Graph.createdEdge now))))

end Links

namespace Graph

/-- How many nodes are older than the one of a key. -/
def rank (g : Graph) (key : Nat) : Nat := g.nodes.keys.idxOf key

def placeOf (g : Graph) (e : Edge) : Place := (e.edgeType, g.rank e.start, g.rank e.finish)

def links (g : Graph) : Links := fun place =>
  (g.edges.values.find? fun e => g.placeOf e = place).map (·.properties)

variable {g h : Graph} {now : Int} {key other : Nat} {n m : Node} {place : Place} {r : Record}

theorem mem_keys_of_find? (hn : g.nodes.find? key = some n) : key ∈ g.nodes.keys :=
  List.mem_map.2 ⟨(key, n), SortedMap.find?_eq_some_iff.1 hn, rfl⟩

theorem eq_of_rank_eq (hn : g.nodes.find? key = some n) (hr : g.rank key = g.rank other) :
    key = other := (List.idxOf_inj (mem_keys_of_find? hn)).1 hr

theorem rank_congr (hk : h.nodes.keys = g.nodes.keys) : h.rank = g.rank := by
  funext key
  rw [rank, rank, hk]

/-- Nodes are listed by rank. -/
theorem map_rank_entries (g : Graph) :
    g.nodes.entries.map (fun b => (b.2, g.rank b.1)) = g.nodes.values.zipIdx := by
  refine List.ext_getElem (by simp [SortedMap.values]) fun i hi hj => ?_
  have hlt : i < g.nodes.keys.length := by simpa [SortedMap.keys] using hi
  have hrank : g.rank g.nodes.keys[i] = i := (SortedMap.nodup_keys g.nodes).idxOf_getElem i hlt
  simpa [SortedMap.values, SortedMap.keys] using hrank

theorem getElem?_rank (hn : g.nodes.find? key = some n) :
    g.nodes.values[g.rank key]? = some n := by
  have hm : (n, g.rank key) ∈ g.nodes.values.zipIdx := by
    rw [← map_rank_entries]
    exact List.mem_map_of_mem (SortedMap.find?_eq_some_iff.1 hn)
  exact List.mem_zipIdx_iff_getElem?.1 hm

theorem exists_of_getElem? {i : Nat} (hn : g.nodes.values[i]? = some n) :
    ∃ key, g.nodes.find? key = some n ∧ g.rank key = i := by
  have hm : (n, i) ∈ g.nodes.values.zipIdx := List.mem_zipIdx_iff_getElem?.2 hn
  rw [← map_rank_entries] at hm
  obtain ⟨⟨key, x⟩, hx, he⟩ := List.mem_map.1 hm
  cases he
  exact ⟨key, SortedMap.find?_eq_some_iff.2 hx, rfl⟩

/-- The rank of what is found is read off the nodes alone. -/
theorem rank_find? (g : Graph) (q : Node → Bool) :
    ((g.nodes.entries.find? fun b => q b.2).map (·.1)).map g.rank =
      (g.nodes.values.zipIdx.find? fun b => q b.1).map (·.2) := by
  rw [← map_rank_entries, List.find?_map, Option.map_map, Option.map_map]
  rfl

theorem rank_filter (g : Graph) (q : Node → Bool) :
    ((g.nodes.entries.filter fun b => q b.2).map (·.1)).map g.rank =
      (g.nodes.values.zipIdx.filter fun b => q b.1).map (·.2) := by
  rw [← map_rank_entries, List.filter_map, List.map_map, List.map_map]
  rfl

/-! Graphs with the same nodes find them at the same ranks. -/

theorem rank_findNode (hv : h.nodes.values = g.nodes.values) (label : String) (id : Json) :
    (h.findNode label id).map h.rank = (g.findNode label id).map g.rank := by
  have hread : ∀ i : Graph, (i.findNode label id).map i.rank =
      (i.nodes.values.zipIdx.find? fun b =>
        decide (b.1.hasLabel label = true ∧ b.1.identifiedBy id = true)).map (·.2) := by
    intro i
    rw [findNode, labelled, List.find?_filter]
    exact rank_find? i fun n => decide (n.hasLabel label = true ∧ n.identifiedBy id = true)
  rw [hread, hread, hv]

theorem rank_matching (hv : h.nodes.values = g.nodes.values) (record : Record)
    (params : Parameters) (p : Endpoint) :
    (h.matching record params p).map h.rank = (g.matching record params p).map g.rank := by
  have hread : ∀ i : Graph, (i.matching record params p).map i.rank =
      (p.matcher.candidates record params).flatMap fun c =>
        (i.nodes.values.zipIdx.filter fun b =>
          p.matcher.accepts record params c b.1 && b.1.hasLabel p.label).map (·.2) := by
    intro i
    simp only [matching, List.map_flatMap, labelled, List.filter_filter]
    refine congrArg (List.flatMap · _) (funext fun c => ?_)
    exact rank_filter i fun n => p.matcher.accepts record params c n && n.hasLabel p.label
  rw [hread, hread, hv]

/-- A row by the ranks of its nodes. -/
def rankRow (g : Graph) (row : Nat × Nat) : Nat × Nat := (g.rank row.1, g.rank row.2)

theorem rank_edgeRows (hv : h.nodes.values = g.nodes.values) (u : EdgeUpsert)
    (params : Parameters) (record : Record) :
    (h.edgeRows u params record).map h.rankRow = (g.edgeRows u params record).map g.rankRow := by
  cases hid : u.nodeId.resolve record params with
  | none => simp [edgeRows, hid]
  | some id =>
    have hfind := rank_findNode hv u.nodeLabel id
    have hpair : ∀ (i : Graph) (node : Nat) (targets : List Nat),
        (targets.map (node, ·)).map i.rankRow = (targets.map i.rank).map (i.rank node, ·) := by
      intro i node targets
      rw [List.map_map, List.map_map]
      rfl
    cases hg : g.findNode u.nodeLabel id with
    | none =>
      rw [hg, Option.map_none, Option.map_eq_none_iff] at hfind
      simp [edgeRows, hid, hg, hfind]
    | some node =>
      rw [hg, Option.map_some, Option.map_eq_some_iff] at hfind
      obtain ⟨node', hh, hrank⟩ := hfind
      simp only [edgeRows, hid, hg, hh, Option.bind_some, hpair, hrank, rank_matching hv]

/-! What writing does to ranks and to what is stored at them. -/

theorem entries_addNode (hg : g.WellFormed) :
    (g.addNode n).nodes.entries = g.nodes.entries ++ [(g.lastKey + 1, n)] :=
  SortedMap.entries_insert_of_lt fun _ _ hm => Nat.lt_succ_of_le (hg.node_le hm)

theorem keys_addNode (hg : g.WellFormed) :
    (g.addNode n).nodes.keys = g.nodes.keys ++ [g.lastKey + 1] := by
  simp [SortedMap.keys, entries_addNode hg]

theorem values_addNode (hg : g.WellFormed) :
    (g.addNode n).nodes.values = g.nodes.values ++ [n] := by
  simp [SortedMap.values, entries_addNode hg]

theorem entries_setNode (hn : g.nodes.find? key = some n) : (g.setNode key m).nodes.entries =
    g.nodes.entries.map fun b => if b.1 = key then (key, m) else b :=
  SortedMap.entries_insert_of_find? hn

theorem keys_setNode (hn : g.nodes.find? key = some n) :
    (g.setNode key m).nodes.keys = g.nodes.keys := by
  rw [SortedMap.keys, entries_setNode hn, List.map_map]
  refine List.map_congr_left fun b _ => ?_
  by_cases hb : b.1 = key <;> simp [hb]

theorem values_setNode (hn : g.nodes.find? key = some n) :
    (g.setNode key m).nodes.values = g.nodes.values.set (g.rank key) m := by
  refine List.ext_getElem? fun i => ?_
  rw [List.getElem?_set]
  have hrank : (g.setNode key m).rank = g.rank := rank_congr (keys_setNode hn)
  have hset : (g.setNode key m).nodes.find? key = some m := by
    rw [find?_nodes_setNode, if_pos rfl]
  split
  · next hi =>
    have hlt : i < g.nodes.values.length := by
      rw [← hi]
      exact (List.getElem?_eq_some_iff.1 (getElem?_rank hn)).1
    rw [if_pos (hi ▸ hlt), ← hi, ← hrank]
    exact getElem?_rank hset
  · next hi =>
    have hother : ∀ k, g.rank k = i → k ≠ key := fun k hk he => hi (he ▸ hk)
    refine Option.ext fun x => ⟨fun hx => ?_, fun hx => ?_⟩
    · obtain ⟨k, hk, hki⟩ := exists_of_getElem? hx
      rw [hrank] at hki
      rw [find?_nodes_setNode, if_neg (hother k hki)] at hk
      exact hki ▸ getElem?_rank hk
    · obtain ⟨k, hk, hki⟩ := exists_of_getElem? hx
      have hkept : (g.setNode key m).nodes.find? k = some x := by
        rw [find?_nodes_setNode, if_neg (hother k hki), hk]
      have hget := getElem?_rank hkept
      rwa [hrank, hki] at hget

theorem rank_addNode (hg : g.WellFormed) (hn : g.nodes.find? key = some n) :
    (g.addNode m).rank key = g.rank key := by
  rw [rank, keys_addNode hg, List.idxOf_append_of_mem (mem_keys_of_find? hn), rank]

theorem rank_setNode (hn : g.nodes.find? key = some n) : (g.setNode key m).rank = g.rank :=
  rank_congr (keys_setNode hn)

/-- No two edges are at one place. -/
theorem eq_of_placeOf_eq {e f : Edge} (hg : g.WellFormed) (he : g.edges.find? key = some e)
    (hf : g.edges.find? other = some f) (hp : g.placeOf f = g.placeOf e) : key = other := by
  simp only [placeOf, Prod.mk.injEq] at hp
  obtain ⟨_, hs⟩ := hg.start hf
  obtain ⟨_, ht⟩ := hg.finish hf
  exact hg.single he hf
    (Edge.joins_iff.2 ⟨hp.1, eq_of_rank_eq hs hp.2.1, eq_of_rank_eq ht hp.2.2⟩)

theorem mem_links (hg : g.WellFormed) : g.links place = some r ↔
    ∃ k e, g.edges.find? k = some e ∧ g.placeOf e = place ∧ e.properties = r := by
  rw [links, Option.map_eq_some_iff]
  constructor
  · rintro ⟨e, he, rfl⟩
    obtain ⟨k, hk⟩ := SortedMap.mem_values.1 (List.mem_of_find?_eq_some he)
    exact ⟨k, e, hk, by simpa using List.find?_some he, rfl⟩
  · rintro ⟨k, e, hk, hp, rfl⟩
    have hsome : (g.edges.values.find? fun e => g.placeOf e = place).isSome = true :=
      List.find?_isSome.2 ⟨e, SortedMap.mem_values.2 ⟨k, hk⟩, by simpa using hp⟩
    obtain ⟨f, hf⟩ := Option.isSome_iff_exists.1 hsome
    obtain ⟨l, hl⟩ := SortedMap.mem_values.1 (List.mem_of_find?_eq_some hf)
    have hplace : g.placeOf f = g.placeOf e := by
      rw [hp]
      simpa using List.find?_some hf
    cases eq_of_placeOf_eq hg hk hl hplace
    cases hk.symm.trans hl
    exact ⟨e, hf, rfl⟩

theorem links_eq_none_iff : g.links place = none ↔
    ∀ k e, g.edges.find? k = some e → g.placeOf e ≠ place := by
  rw [links, Option.map_eq_none_iff, List.find?_eq_none]
  simp only [SortedMap.mem_values, decide_eq_true_eq]
  exact ⟨fun hall k e he => hall e ⟨k, he⟩, fun hall e ⟨k, he⟩ => hall k e he⟩

/-- What is stored at ranks stays the same if edges and the ranks of their ends do. -/
theorem links_congr (hg : g.WellFormed) (he : h.edges = g.edges)
    (hr : ∀ k n, g.nodes.find? k = some n → h.rank k = g.rank k) : h.links = g.links := by
  have hplace : ∀ e ∈ g.edges.values, h.placeOf e = g.placeOf e := by
    intro e hm
    obtain ⟨k, hk⟩ := SortedMap.mem_values.1 hm
    obtain ⟨n, hn⟩ := hg.start hk
    obtain ⟨m, hm⟩ := hg.finish hk
    rw [placeOf, placeOf, hr _ n hn, hr _ m hm]
  funext place
  rw [links, links, he]
  congr 1
  exact List.find?_congr fun e hm => by rw [hplace e hm]

/-- Graphs with the same nodes still have them after a record is written as a node. -/
theorem values_putNode (hg : g.WellFormed) (hh : h.WellFormed)
    (hv : h.nodes.values = g.nodes.values) (u : NodeUpsert) (params : Parameters)
    (record : Record) : (putNode now u params h record).nodes.values =
      (putNode now u params g record).nodes.values := by
  cases hid : u.properties.id.resolve record params with
  | none => simp only [putNode, hid, hv]
  | some id =>
    have hfind := rank_findNode hv u.label id
    cases hf : g.findNode u.label id with
    | none =>
      rw [hf, Option.map_none, Option.map_eq_none_iff] at hfind
      rw [putNode_of_absent hid hf, putNode_of_absent hid hfind, values_addNode hg,
        values_addNode hh, hv]
    | some key =>
      rw [hf, Option.map_some, Option.map_eq_some_iff] at hfind
      obtain ⟨key', hf', hrank⟩ := hfind
      obtain ⟨n, hn, -⟩ := findNode_eq_some_iff.1 hf
      obtain ⟨n', hn', -⟩ := findNode_eq_some_iff.1 hf'
      have hget := getElem?_rank hn'
      rw [hrank, hv, getElem?_rank hn] at hget
      cases hget
      rw [putNode_of_found hid hf hn, putNode_of_found hid hf' hn', values_setNode hn,
        values_setNode hn', hrank, hv]

theorem rank_putNode (hg : g.WellFormed) {u : NodeUpsert} {params : Parameters}
    {record : Record} (hn : g.nodes.find? key = some n) :
    (putNode now u params g record).rank key = g.rank key := by
  cases hid : u.properties.id.resolve record params with
  | none => rw [putNode, hid]
  | some id =>
    cases hf : g.findNode u.label id with
    | none => rw [putNode_of_absent hid hf, rank_addNode hg hn]
    | some place =>
      obtain ⟨m, hm, -⟩ := findNode_eq_some_iff.1 hf
      rw [putNode_of_found hid hf hm, rank_setNode hm]

theorem links_putNode (hg : g.WellFormed) {u : NodeUpsert} {params : Parameters}
    {record : Record} : (putNode now u params g record).links = g.links :=
  links_congr hg (by
    simp only [putNode, updateNode]
    split
    · rfl
    · split
      · split <;> rfl
      · rfl) fun _ _ hn => rank_putNode hg hn

theorem placeOf_congr (hn : h.nodes = g.nodes) : h.placeOf = g.placeOf := by
  have hrank : h.rank = g.rank := rank_congr (by rw [hn])
  funext e
  rw [placeOf, placeOf, hrank]

/-- One edge that is put in, or put back with other properties, changes one place. -/
theorem links_of_find? {e : Edge} (hg : g.WellFormed) (hh : h.WellFormed) (hn : h.nodes = g.nodes)
    (he : ∀ k, h.edges.find? k = if k = key then some e else g.edges.find? k)
    (hold : ∀ x, g.edges.find? key = some x → g.placeOf x = g.placeOf e) :
    h.links = Function.update g.links (g.placeOf e) (some e.properties) := by
  have hplace : h.placeOf = g.placeOf := placeOf_congr hn
  funext place
  rw [Function.update_apply]
  split
  · next hp =>
    exact (mem_links hh).2 ⟨key, e, by rw [he, if_pos rfl], by rw [hplace, hp], rfl⟩
  · next hp =>
    refine Option.ext fun r => ?_
    rw [mem_links hg, mem_links hh, hplace]
    refine exists_congr fun k => exists_congr fun x => and_congr_left fun hx => ?_
    rw [he]
    split
    · next hk =>
      constructor
      · intro hxe
        cases hxe
        exact absurd hx.1.symm hp
      · intro hxg
        exact absurd (hx.1.symm.trans (hold x (hk ▸ hxg))) hp
    · exact Iff.rfl

variable {edgeType : String} {start finish : Nat} {f : Record → Record}

/-- An edge is written at the ranks of its ends. -/
theorem links_touchEdge (hg : g.WellFormed) (hends : g.HasEnds (start, finish)) :
    (g.touchEdge now edgeType start finish f).links =
      g.links.touch now (edgeType, g.rank start, g.rank finish) f := by
  have hafter : (g.touchEdge now edgeType start finish f).WellFormed := hg.touchEdge hends
  cases hfind : g.findEdge edgeType start finish with
  | none =>
    have hnone : g.links (edgeType, g.rank start, g.rank finish) = none := by
      refine links_eq_none_iff.2 fun k e he hp => ?_
      simp only [placeOf, Prod.mk.injEq] at hp
      obtain ⟨_, hs⟩ := hg.start he
      obtain ⟨_, ht⟩ := hg.finish he
      have hj : e.joins edgeType start finish = true :=
        Edge.joins_iff.2 ⟨hp.1, eq_of_rank_eq hs hp.2.1, eq_of_rank_eq ht hp.2.2⟩
      rw [findEdge_eq_none_iff.1 hfind k e he] at hj
      cases hj
    rw [Links.touch, hnone]
    rw [touchEdge_of_absent hfind] at hafter ⊢
    refine links_of_find? hg hafter rfl (fun k => find?_edges_addEdge) fun x hx => ?_
    exact absurd rfl (hg.edge_ne_next hx)
  | some key =>
    obtain ⟨e, he, hj⟩ := findEdge_eq_some hfind
    obtain ⟨rfl, rfl, rfl⟩ := Edge.joins_iff.1 hj
    have hsome : g.links (g.placeOf e) = some e.properties :=
      (mem_links hg).2 ⟨key, e, he, rfl, rfl⟩
    rw [← placeOf, Links.touch, hsome]
    rw [touchEdge_of_found hfind he] at hafter ⊢
    refine links_of_find? hg hafter rfl (fun k => find?_edges_setEdge) fun x hx => ?_
    cases he.symm.trans hx
    rfl

end Graph

end GraphSync
