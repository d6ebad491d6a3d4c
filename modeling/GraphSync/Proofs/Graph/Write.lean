import GraphSync.Graph.Execute

/-! What one record makes of its node, and one row of its edge. -/
namespace GraphSync

namespace Mapping

variable {m m' : Mapping} {record other r : Record} {params : Parameters} {name : String}

/-- A declared property takes the value referred to, and any other keeps its own. -/
theorem find?_assignAll (hd : m.names.Nodup) : (m.assignAll record params r).find? name =
    match m.ref? name with
    | some ref => ref.resolve record params
    | none => r.find? name := by
  induction m generalizing r with
  | nil => rfl
  | cons e rest ih =>
    obtain ⟨hnot, hrest⟩ := List.nodup_cons.1 hd
    have hstep : assignAll (e :: rest) record params r =
        assignAll rest record params (r.assign e.1 (e.2.resolve record params)) := rfl
    rw [hstep, ih hrest, ref?_cons]
    by_cases h : e.1 = name
    · have hnone : ref? rest name = none := ref?_eq_none_iff.2 (h ▸ hnot)
      simp [h, hnone, Record.find?_assign]
    · simp [h, Record.find?_assign, Ne.symm h]

/-- Values that are set last replace those that the same mapping set before. -/
theorem assignAll_assignAll (hd : m.names.Nodup) :
    m.assignAll record params (m.assignAll other params r) = m.assignAll record params r := by
  refine SortedMap.find?_ext fun name => ?_
  simp only [find?_assignAll hd]
  split <;> rfl

/-- Values that are set last cover what the same mapping set before. -/
theorem assignAll_covers (hd : m.names.Nodup) (hd' : m'.names.Nodup) :
    m.assignAll record params
        (m'.assignAll other params (m.assignAll record params r)) =
      m.assignAll record params (m'.assignAll other params r) := by
  refine SortedMap.find?_ext fun name => ?_
  simp only [find?_assignAll hd, find?_assignAll hd']
  split <;> simp_all

end Mapping

namespace NodeProperties

variable {p : NodeProperties} {name : String}

theorem nodup_names_assigned (p : NodeProperties) : p.assigned.names.Nodup :=
  p.wellFormed.distinct.sublist ((List.filter_sublist).map _)

theorem ref?_assigned : p.assigned.ref? name =
    if name = Names.id then none else p.mapping.ref? name := by
  rw [assigned, Mapping.ref?, Mapping.ref?, List.find?_filter]
  by_cases h : name = Names.id
  · simp only [h, if_true, Option.map_eq_none_iff, List.find?_eq_none]
    simp
  · rw [if_neg h]
    congr 2
    funext e
    by_cases he : e.1 = name <;> simp [he, h]

end NodeProperties

theorem Node.hasLabel_ofKeys {labels : List String} {r : Record} {label : String} :
    Node.hasLabel ⟨.ofKeys labels, r⟩ label = decide (label ∈ labels) :=
  SortedSet.contains_ofKeys labels label

namespace NodeUpsert

variable (u : NodeUpsert) (params : Parameters) (record : Record)

/-- A node as it is created, before its properties are set. -/
def created (now : Int) (id : Json) : Node :=
  ⟨.ofKeys [u.label], SortedMap.ofList [(Names.id, id), (Names.firstSeen, .int now)]⟩

/-- What a record makes of its node. -/
def update (n : Node) : Node :=
  ⟨SortedSet.addAll n.labels u.extraLabels,
    u.properties.assigned.assignAll record params n.properties⟩

variable {u params record} {other : Record} {n : Node} {label : String} {now : Int} {id : Json}

theorem hasLabel_update : (u.update params record n).hasLabel label =
    (n.hasLabel label || decide (label ∈ u.extraLabels)) :=
  SortedSet.contains_addAll _ _ _

theorem get?_update {name : String} : (u.update params record n).get? name =
    match if name = Names.id then none else u.properties.mapping.ref? name with
    | some ref => ref.resolve record params
    | none => n.get? name := by
  rw [← NodeProperties.ref?_assigned]
  exact Mapping.find?_assignAll u.properties.nodup_names_assigned

/-- A record never changes the identity of the node it is written to. -/
theorem get?_id_update : (u.update params record n).get? Names.id = n.get? Names.id := by
  rw [get?_update, if_pos rfl]

/-- Nor does a record change the time at which a node was created. -/
theorem get?_firstSeen_update :
    (u.update params record n).get? Names.firstSeen = n.get? Names.firstSeen := by
  have hnone : u.properties.mapping.ref? Names.firstSeen = none :=
    Mapping.ref?_eq_none_iff.2 u.properties.unreserved
  rw [get?_update, if_neg (by decide), hnone]

theorem identifiedBy_update :
    (u.update params record n).identifiedBy id = n.identifiedBy id := by
  rw [Node.identifiedBy, get?_id_update, Node.identifiedBy]

/-- The last record that is written to a node counts. -/
theorem update_update :
    u.update params record (u.update params other n) = u.update params record n := by
  simp only [update, SortedSet.addAll_addAll,
    Mapping.assignAll_assignAll u.properties.nodup_names_assigned]

theorem hasLabel_created : (u.created now id).hasLabel label = decide (label = u.label) := by
  rw [created, Node.hasLabel_ofKeys]
  exact decide_eq_decide.2 List.mem_singleton

theorem get?_id_created : (u.created now id).get? Names.id = some id := by
  simp [created, Node.get?, SortedMap.ofList, SortedMap.insertAll, SortedMap.find?_insert,
    show Names.id ≠ Names.firstSeen by decide]

theorem get?_firstSeen_created :
    (u.created now id).get? Names.firstSeen = some (.int now) := by
  simp [created, Node.get?, SortedMap.ofList, SortedMap.insertAll, SortedMap.find?_insert]

end NodeUpsert

namespace Graph

variable {g : Graph} {now : Int} {u : NodeUpsert} {params : Parameters} {record : Record}
  {id : Json} {key : Nat} {n : Node}

theorem writeNode_of_found (hid : u.properties.id.resolve record params = some id)
    (hf : g.findNode u.label id = some key) (hn : g.nodes.find? key = some n) :
    writeNode now u params g record = .ok (g.setNode key (u.update params record n)) := by
  simp only [writeNode, hid, locateNode, hf, updateNode, hn]
  rfl

theorem setNode_setNode (g : Graph) (key : Nat) (n m : Node) :
    (g.setNode key n).setNode key m = g.setNode key m := by
  simp only [setNode, SortedMap.insert_insert]

theorem writeNode_of_absent (hid : u.properties.id.resolve record params = some id)
    (hf : g.findNode u.label id = none) :
    writeNode now u params g record =
      .ok (g.addNode (u.update params record (u.created now id))) := by
  have hn : (g.addNode (u.created now id)).nodes.find? (g.lastKey + 1) =
      some (u.created now id) := by
    simp [addNode, SortedMap.find?_insert]
  have hw : writeNode now u params g record = .ok ((g.addNode (u.created now id)).updateNode
      (g.lastKey + 1) (u.update params record)) := by
    simp only [writeNode, hid, locateNode, hf]
    rfl
  rw [hw, updateNode, hn]
  have hset : ∀ m : Node, (g.addNode m) =
      ({ g with lastKey := g.lastKey + 1 } : Graph).setNode (g.lastKey + 1) m := fun _ => rfl
  simp only [hset, setNode_setNode]

/-- The graph after a record is written as a node; one without identity is passed over. -/
def putNode (now : Int) (u : NodeUpsert) (params : Parameters) (g : Graph) (record : Record) :
    Graph :=
  match u.properties.id.resolve record params with
  | none => g
  | some id =>
    match g.findNode u.label id with
    | some key => g.updateNode key (u.update params record)
    | none => g.addNode (u.update params record (u.created now id))

theorem putNode_of_found (hid : u.properties.id.resolve record params = some id)
    (hf : g.findNode u.label id = some key) (hn : g.nodes.find? key = some n) :
    putNode now u params g record = g.setNode key (u.update params record n) := by
  simp only [putNode, hid, hf, updateNode, hn]

theorem putNode_of_absent (hid : u.properties.id.resolve record params = some id)
    (hf : g.findNode u.label id = none) :
    putNode now u params g record = g.addNode (u.update params record (u.created now id)) := by
  simp only [putNode, hid, hf]

theorem writeNode_eq_putNode (hid : u.properties.id.resolve record params = some id) :
    writeNode now u params g record = .ok (putNode now u params g record) := by
  cases hf : g.findNode u.label id with
  | none => rw [writeNode_of_absent hid hf, putNode_of_absent hid hf]
  | some key =>
    obtain ⟨n, hn, -⟩ := findNode_eq_some_iff.1 hf
    rw [writeNode_of_found hid hf hn, putNode_of_found hid hf hn]

/-- Writes the properties of the edge of a type between two nodes, created if there is none. -/
def touchEdge (now : Int) (edgeType : String) (start finish : Nat) (f : Record → Record)
    (g : Graph) : Graph :=
  (g.locateEdge now edgeType start finish).1.updateEdge
    (g.locateEdge now edgeType start finish).2 f

theorem writeEdge_eq_touchEdge (e : EdgeSchema) (row : Nat × Nat) :
    g.writeEdge now e params record row = g.touchEdge now e.edgeType
      (e.direction.orient row.1 row.2).1 (e.direction.orient row.1 row.2).2
      (e.properties.mapping.assignAll record params) := rfl

/-- The properties of an edge when it is created. -/
def createdEdge (now : Int) : Record := SortedMap.ofList [(Names.firstSeen, .int now)]

variable {edgeType : String} {start finish : Nat} {f : Record → Record} {e : Edge}

theorem touchEdge_of_found (hf : g.findEdge edgeType start finish = some key)
    (he : g.edges.find? key = some e) : g.touchEdge now edgeType start finish f =
      g.setEdge key { e with properties := f e.properties } := by
  simp only [touchEdge, locateEdge, hf, updateEdge, he]

theorem touchEdge_of_absent (hf : g.findEdge edgeType start finish = none) :
    g.touchEdge now edgeType start finish f =
      g.addEdge ⟨edgeType, start, finish, f (createdEdge now)⟩ := by
  have he : (g.addEdge ⟨edgeType, start, finish, createdEdge now⟩).edges.find? (g.lastKey + 1) =
      some ⟨edgeType, start, finish, createdEdge now⟩ := by
    simp [addEdge, SortedMap.find?_insert]
  have hw : g.touchEdge now edgeType start finish f =
      (g.addEdge ⟨edgeType, start, finish, createdEdge now⟩).updateEdge (g.lastKey + 1) f := by
    simp only [touchEdge, locateEdge, hf]
    rfl
  rw [hw, updateEdge, he]
  simp only [addEdge, setEdge]
  congr 1
  refine SortedMap.find?_ext fun k => ?_
  by_cases h : k = g.lastKey + 1 <;> simp [SortedMap.find?_insert, h]

/-- Writing an edge leaves the nodes alone. -/
theorem nodes_touchEdge : (g.touchEdge now edgeType start finish f).nodes = g.nodes := by
  cases hf : g.findEdge edgeType start finish with
  | none => rw [touchEdge_of_absent hf]; rfl
  | some key =>
    obtain ⟨e, he, -⟩ := findEdge_eq_some hf
    rw [touchEdge_of_found hf he]
    rfl

end Graph

end GraphSync
