import GraphSync.Proofs.Load.Rows
import GraphSync.Proofs.Load.Upserting

/-! The writes of a batch: its records as nodes, and the rows that they find as edges. -/
namespace GraphSync

namespace Graph

variable {g h : Graph} {s : NodeSchema} {params : Parameters} {record : Record} {key : Nat}

theorem ext_parts (hn : h.nodes = g.nodes) (he : h.edges = g.edges)
    (hi : h.indexes = g.indexes) (hk : h.lastKey = g.lastKey) : h = g := by
  cases g
  cases h
  simp_all

/-- The node that a record finds. -/
def nodeOf (s : NodeSchema) (params : Parameters) (g : Graph) (record : Record) : Option Nat :=
  (s.properties.id.resolve record params).bind (g.findNode s.label)

theorem nodeOf_eq_some_iff : g.nodeOf s params record = some key ↔
    ∃ id, s.properties.id.resolve record params = some id ∧ g.findNode s.label id = some key :=
  Option.bind_eq_some_iff

/-- A row of a record is the node that it finds with a target. -/
theorem mem_edgeRows_nodeOf {e : EdgeSchema} {row : Nat × Nat} :
    row ∈ g.edgeRows (s.edgeUpsert e) params record ↔
      g.nodeOf s params record = some row.1 ∧ row.2 ∈ g.matching record params e.target := by
  rw [mem_edgeRows, nodeOf_eq_some_iff]
  constructor
  · rintro ⟨id, hid, hf, hm⟩
    exact ⟨⟨id, hid, hf⟩, hm⟩
  · rintro ⟨⟨id, hid, hf⟩, hm⟩
    exact ⟨id, hid, hf, hm⟩

/-- Records written as nodes. -/
def nodeWrites (s : NodeSchema) (params : Parameters) : Upserting Graph Record Node where
  find := nodeOf s params
  item g := g.nodes.find?
  rest g := { g with nodes := .empty }
  update := s.upsert.update params
  put now := putNode now s.upsert params
  Valid := WellFormed
  Fits r := ∃ id, s.properties.id.resolve r params = some id ∧ id.agrees id = true
  valid_put _ _ _ hg _ := hg.putNode
  ext hitem hrest := by
    simp only [mk.injEq, true_and] at hrest
    exact ext_parts (SortedMap.find?_ext hitem) hrest.1 hrest.2.1 hrest.2.2
  exists_item hf := by
    obtain ⟨id, -, hf⟩ := nodeOf_eq_some_iff.1 hf
    obtain ⟨n, hn, -⟩ := findNode_eq_some_iff.1 hf
    exact ⟨n, hn⟩
  found _ _ _ _ _ hf hn := by
    obtain ⟨id, hid, hf⟩ := nodeOf_eq_some_iff.1 hf
    rw [putNode_of_found (u := s.upsert) hid hf hn]
    exact ⟨rfl, fun k => find?_nodes_setNode⟩
  absent now g r hg hfits hf := by
    obtain ⟨id, hid, hself⟩ := hfits
    have hnone : g.findNode s.label id = none := by
      rw [nodeOf, hid] at hf
      exact hf
    refine ⟨g.lastKey + 1, s.upsert.created now id, hg.find?_node_next, ?_, fun k => ?_⟩
    · exact nodeOf_eq_some_iff.2
        ⟨id, hid, findNode_putNode_of_absent (u := s.upsert) hid hself hnone⟩
    · rw [putNode_of_absent (u := s.upsert) hid hnone]
      exact find?_nodes_addNode
  stable _ _ _ _ _ hg _ hf := by
    obtain ⟨id, hid, hf⟩ := nodeOf_eq_some_iff.1 hf
    have hlabel : s.label ∉ s.extraLabels := s.label_not_mem_extraLabels
    exact nodeOf_eq_some_iff.2 ⟨id, hid, findNode_putNode (u := s.upsert) hg hlabel hf⟩
  update_twice _ _ := NodeUpsert.update_update
  update_covers _ _ _ := by simp only [NodeUpsert.update_update]

end Graph

/-- A row of an edge schema, with the record that it was found for. -/
structure EdgeWrite where
  schema : EdgeSchema
  record : Record
  row : Nat × Nat

namespace EdgeWrite

/-- Start and end of the edge that is written. -/
def ends (w : EdgeWrite) : Nat × Nat := w.schema.direction.orient w.row.1 w.row.2

def update (params : Parameters) (w : EdgeWrite) (e : Edge) : Edge :=
  { e with properties := w.schema.properties.mapping.assignAll w.record params e.properties }

variable {params : Parameters} {v w : EdgeWrite} {e : Edge}

theorem update_twice : w.update params (w.update params e) = w.update params e := by
  simp only [update, Mapping.assignAll_assignAll w.schema.properties.wellFormed.distinct]

theorem update_covers :
    w.update params (v.update params (w.update params e)) =
      w.update params (v.update params e) := by
  simp only [update, Mapping.assignAll_covers w.schema.properties.wellFormed.distinct
    v.schema.properties.wellFormed.distinct]

end EdgeWrite

namespace Graph

variable {g h : Graph} {now : Int} {s : NodeSchema} {params : Parameters}
  {records : List Record} {key : Nat} {edgeType other : String} {start finish a b : Nat}
  {f : Record → Record}

theorem edges_putNode {u : NodeUpsert} {record : Record} :
    (putNode now u params g record).edges = g.edges := by
  cases hid : u.properties.id.resolve record params with
  | none => rw [putNode, hid]
  | some id =>
    cases hf : g.findNode u.label id with
    | none =>
      rw [putNode_of_absent hid hf]
      rfl
    | some key =>
      obtain ⟨n, hn, -⟩ := findNode_eq_some_iff.1 hf
      rw [putNode_of_found hid hf hn]
      rfl

theorem edges_putNodes : (g.putNodes now s params records).edges = g.edges := by
  induction records generalizing g with
  | nil => rfl
  | cons r rest ih => exact ih.trans (edges_putNode (u := s.upsert))

/-- An edge that is created is the one that is found for its type and ends. -/
theorem findEdge_touchEdge_of_absent (hf : g.findEdge edgeType start finish = none) :
    (g.touchEdge now edgeType start finish f).findEdge edgeType start finish =
      some (g.lastKey + 1) := by
  rw [touchEdge_of_absent hf]
  refine findEdge_eq_some_iff.2 ⟨_, by rw [find?_edges_addEdge, if_pos rfl], ?_, ?_⟩
  · exact Edge.joins_iff.2 ⟨rfl, rfl, rfl⟩
  · intro k x hk hx
    rw [find?_edges_addEdge, if_neg (Nat.ne_of_lt hk)] at hx
    exact findEdge_eq_none_iff.1 hf k x hx

/-- The edge that is found between two nodes stays the one found when another is written. -/
theorem findEdge_touchEdge (hg : g.WellFormed) (hf : g.findEdge edgeType start finish = some key) :
    (g.touchEdge now other a b f).findEdge edgeType start finish = some key := by
  obtain ⟨e, he, hj, hleast⟩ := findEdge_eq_some_iff.1 hf
  cases hother : g.findEdge other a b with
  | none =>
    have hle := hg.edge_le he
    rw [touchEdge_of_absent hother]
    refine findEdge_eq_some_iff.2 ⟨e, ?_, hj, fun k x hk hx => hleast k x hk ?_⟩
    · rw [find?_edges_addEdge, if_neg (by omega), he]
    · rwa [find?_edges_addEdge, if_neg (by omega)] at hx
  | some place =>
    obtain ⟨o, ho, -⟩ := findEdge_eq_some hother
    have hkeep : ({ o with properties := f o.properties } : Edge).joins edgeType start finish =
        o.joins edgeType start finish := rfl
    rw [touchEdge_of_found hother ho]
    by_cases hp : key = place
    · subst hp
      cases he.symm.trans ho
      refine findEdge_eq_some_iff.2 ⟨{ e with properties := f e.properties },
        by rw [find?_edges_setEdge, if_pos rfl], hj, ?_⟩
      intro k x hk hx
      rw [find?_edges_setEdge, if_neg (Nat.ne_of_lt hk)] at hx
      exact hleast k x hk hx
    · refine findEdge_eq_some_iff.2
        ⟨e, by rw [find?_edges_setEdge, if_neg hp, he], hj, fun k x hk hx => ?_⟩
      rw [find?_edges_setEdge] at hx
      split at hx
      · next hplace =>
        cases hx
        rw [hkeep]
        exact hleast k o hk (hplace ▸ ho)
      · exact hleast k x hk hx

/-- Graphs with the same edges are equal if they are without them. -/
theorem eq_of_edges (hedges : ∀ key, h.edges.find? key = g.edges.find? key)
    (hrest : { h with edges := .empty } = { g with edges := .empty }) : h = g := by
  simp only [mk.injEq, true_and] at hrest
  exact ext_parts hrest.1 (SortedMap.find?_ext hedges) hrest.2.1 hrest.2.2

/-- An edge that is found is touched, and nothing else is. -/
theorem touchEdge_found {e : Edge} (hf : g.findEdge edgeType start finish = some key)
    (he : g.edges.find? key = some e) :
    { g.touchEdge now edgeType start finish f with edges := .empty } =
        { g with edges := .empty } ∧
      ∀ k, (g.touchEdge now edgeType start finish f).edges.find? k =
        if k = key then some { e with properties := f e.properties } else g.edges.find? k := by
  rw [touchEdge_of_found hf he]
  exact ⟨rfl, fun k => find?_edges_setEdge⟩

/-- An edge that is not there is created, touched and then found. -/
theorem touchEdge_absent (hg : g.WellFormed) (hf : g.findEdge edgeType start finish = none) :
    ∃ key, ∃ e : Edge, g.edges.find? key = none ∧
      (g.touchEdge now edgeType start finish f).findEdge edgeType start finish = some key ∧
      ∀ k, (g.touchEdge now edgeType start finish f).edges.find? k =
        if k = key then some { e with properties := f e.properties } else g.edges.find? k := by
  refine ⟨g.lastKey + 1, ⟨edgeType, start, finish, createdEdge now⟩, hg.find?_edge_next,
    findEdge_touchEdge_of_absent hf, fun k => ?_⟩
  rw [touchEdge_of_absent hf]
  exact find?_edges_addEdge

/-- The edge that a row finds. -/
def edgeOf (g : Graph) (w : EdgeWrite) : Option Nat :=
  g.findEdge w.schema.edgeType w.ends.1 w.ends.2

def putEdge (g : Graph) (now : Int) (params : Parameters) (w : EdgeWrite) : Graph :=
  g.writeEdge now w.schema params w.record w.row

theorem putEdge_eq_touchEdge (w : EdgeWrite) : g.putEdge now params w =
    g.touchEdge now w.schema.edgeType w.ends.1 w.ends.2
      (w.schema.properties.mapping.assignAll w.record params) := rfl

/-- Rows written as edges between the nodes of a graph. -/
def edgeWrites (params : Parameters) (g : Graph) : Upserting Graph EdgeWrite Edge where
  find := edgeOf
  item h := h.edges.find?
  rest h := { h with edges := .empty }
  update := EdgeWrite.update params
  put now h w := h.putEdge now params w
  Valid h := h.WellFormed ∧ h.nodes = g.nodes
  Fits w := g.HasEnds w.row
  valid_put _ _ _ hh hw :=
    ⟨hh.1.step (step_writeEdge ((hasEnds_congr hh.2).2 hw)), nodes_writeEdge.trans hh.2⟩
  ext := eq_of_edges
  exists_item hf := by
    obtain ⟨e, he, -⟩ := findEdge_eq_some hf
    exact ⟨e, he⟩
  found _ _ _ _ _ hf he := touchEdge_found hf he
  absent _ _ _ hh _ hf := touchEdge_absent hh.1 hf
  stable _ _ _ _ _ hh _ hf := findEdge_touchEdge hh.1 hf
  update_twice _ _ := EdgeWrite.update_twice
  update_covers _ _ _ := EdgeWrite.update_covers

/-- The rows of records for the edges of a schema. -/
def recordRows (e : EdgeSchema) (rows : Record → List (Nat × Nat)) (records : List Record) :
    List EdgeWrite :=
  records.flatMap fun r => (rows r).map (⟨e, r, ·⟩)

theorem mem_recordRows {e : EdgeSchema} {rows : Record → List (Nat × Nat)} {w : EdgeWrite} :
    w ∈ recordRows e rows records ↔
      w.schema = e ∧ w.record ∈ records ∧ w.row ∈ rows w.record := by
  obtain ⟨f, r, row⟩ := w
  simp only [recordRows, List.mem_flatMap, List.mem_map, EdgeWrite.mk.injEq]
  constructor
  · rintro ⟨r, hr, row, hrow, rfl, rfl, rfl⟩
    exact ⟨rfl, hr, hrow⟩
  · rintro ⟨rfl, hr, hrow⟩
    exact ⟨r, hr, row, hrow, rfl, rfl, rfl⟩

/-- The rows that one edge schema has for the records of a batch. -/
def schemaWrites (g : Graph) (u : EdgeUpsert) (params : Parameters) (records : List Record) :
    List EdgeWrite :=
  records.flatMap fun r => (g.edgeRows u params r).map (⟨u.edge, r, ·⟩)

/-- The rows of a batch, for one edge schema after the other. -/
def batchWrites (s : NodeSchema) (params : Parameters) (g : Graph) (records : List Record) :
    List EdgeWrite :=
  s.allEdges.flatMap fun e => g.schemaWrites (s.edgeUpsert e) params records

theorem mem_schemaWrites {u : EdgeUpsert} {w : EdgeWrite} :
    w ∈ g.schemaWrites u params records ↔
      w.schema = u.edge ∧ w.record ∈ records ∧ w.row ∈ g.edgeRows u params w.record :=
  mem_recordRows

theorem hasEnds_of_mem_batchWrites {w : EdgeWrite} (hw : w ∈ g.batchWrites s params records) :
    g.HasEnds w.row := by
  obtain ⟨e, -, hw⟩ := List.mem_flatMap.1 hw
  exact hasEnds_of_mem_edgeRows (mem_schemaWrites.1 hw).2.2

theorem schemaWrites_congr (hn : h.nodes = g.nodes) (u : EdgeUpsert) :
    h.schemaWrites u params records = g.schemaWrites u params records := by
  simp only [schemaWrites, edgeRows_congr hn]

theorem batchWrites_congr (hn : h.nodes = g.nodes) :
    h.batchWrites s params records = g.batchWrites s params records := by
  simp only [batchWrites, schemaWrites_congr hn]

/-- Edges are written row by row. -/
theorem writeEdges_eq_foldl {e : EdgeSchema} :
    h.writeEdges now e params (g.rowsOf s params e records) =
      (g.schemaWrites (s.edgeUpsert e) params records).foldl
        (fun h w => h.putEdge now params w) h := by
  simp only [writeEdges, rowsOf, schemaWrites, List.foldl_flatMap, List.foldl_map]
  rfl

theorem putEdges_eq_foldl : g.putEdges now s params records =
    (g.batchWrites s params records).foldl (fun h w => h.putEdge now params w) g := by
  simp only [putEdges, batchWrites, List.foldl_flatMap, writeEdges_eq_foldl]

end Graph

end GraphSync
