import Mathlib.Logic.Relation
import GraphSync.Proofs.Graph.Write

/-! What running statements can do to a graph, one write or one removal at a time. -/
namespace GraphSync

namespace Graph

variable {g h : Graph} {now : Int} {params : Parameters}

/-- One write or removal. A node is written by a record with an identity; an edge is written
between nodes that are there; neither write touches a creation time that is there already. -/
inductive Step (now : Int) : Graph → Graph → Prop
  | index {g : Graph} (target : IndexTarget) :
      Step now g { g with indexes := SortedSet.add g.indexes target }
  | addNode {g : Graph} (u : NodeUpsert) (params : Parameters) (record : Record) {id : Json}
      (hid : u.properties.id.resolve record params = some id)
      (hf : g.findNode u.label id = none) :
      Step now g (g.addNode (u.update params record (u.created now id)))
  | setNode {g : Graph} {key : Nat} {n : Node} (u : NodeUpsert) (params : Parameters)
      (record : Record) {id : Json}
      (hid : u.properties.id.resolve record params = some id)
      (hf : g.findNode u.label id = some key) (hn : g.nodes.find? key = some n) :
      Step now g (g.setNode key (u.update params record n))
  | addEdge {g : Graph} (e : Edge) (hf : g.findEdge e.edgeType e.start e.finish = none)
      (hstart : ∃ n, g.nodes.find? e.start = some n)
      (hfinish : ∃ n, g.nodes.find? e.finish = some n)
      (hseen : e.properties.find? Names.firstSeen = some (.int now)) : Step now g (g.addEdge e)
  | setEdge {g : Graph} {key : Nat} {e : Edge} (r : Record) (he : g.edges.find? key = some e)
      (hseen : r.find? Names.firstSeen = e.properties.find? Names.firstSeen) :
      Step now g (g.setEdge key { e with properties := r })
  | removeNodes {g : Graph} (keys : List Nat) : Step now g (g.removeNodes keys)
  | removeEdges {g : Graph} (keys : List Nat) : Step now g (g.removeEdges keys)

/-- Any number of writes and removals at one time. -/
abbrev Steps (now : Int) : Graph → Graph → Prop := Relation.ReflTransGen (Step now)

theorem step_of_writeNode {u : NodeUpsert} {record : Record}
    (hw : writeNode now u params g record = .ok h) : Step now g h := by
  cases hid : u.properties.id.resolve record params with
  | none => simp [writeNode, hid] at hw
  | some id =>
    cases hf : g.findNode u.label id with
    | none =>
      rw [writeNode_of_absent hid hf] at hw
      cases hw
      exact .addNode u params record hid hf
    | some key =>
      obtain ⟨n, hn, -⟩ := findNode_eq_some_iff.1 hf
      rw [writeNode_of_found hid hf hn] at hw
      cases hw
      exact .setNode u params record hid hf hn

theorem steps_of_upsertNodes {u : NodeUpsert} {records : List Record}
    (hw : records.foldlM (writeNode now u params) g = .ok h) : Steps now g h := by
  induction records generalizing g with
  | nil =>
    cases hw
    exact .refl
  | cons r rest ih =>
    rw [List.foldlM_cons] at hw
    obtain ⟨mid, hfirst, hrest⟩ := bind_eq_ok_iff.1 hw
    exact .head (step_of_writeNode hfirst) (ih hrest)

section Edges

variable {edgeType : String} {start finish : Nat} {f : Record → Record}

/-- Both nodes of a row are there. -/
def HasEnds (g : Graph) (row : Nat × Nat) : Prop :=
  (∃ n, g.nodes.find? row.1 = some n) ∧ ∃ n, g.nodes.find? row.2 = some n

theorem HasEnds.orient {row : Nat × Nat} (hrow : g.HasEnds row) (d : Direction) :
    g.HasEnds (d.orient row.1 row.2) := by
  cases d
  · exact ⟨hrow.2, hrow.1⟩
  · exact hrow

theorem hasEnds_congr {row : Nat × Nat} (hn : h.nodes = g.nodes) :
    h.HasEnds row ↔ g.HasEnds row := by
  rw [HasEnds, HasEnds, hn]

theorem step_touchEdge (hends : g.HasEnds (start, finish))
    (hf : ∀ r, (f r).find? Names.firstSeen = r.find? Names.firstSeen) :
    Step now g (g.touchEdge now edgeType start finish f) := by
  cases hfind : g.findEdge edgeType start finish with
  | none =>
    rw [touchEdge_of_absent hfind]
    refine .addEdge _ hfind hends.1 hends.2 ?_
    rw [hf]
    simp [createdEdge, SortedMap.ofList, SortedMap.insertAll, SortedMap.find?_insert]
  | some key =>
    obtain ⟨e, he, -⟩ := findEdge_eq_some hfind
    rw [touchEdge_of_found hfind he]
    exact .setEdge _ he (hf _)

theorem nodes_foldl {α : Type} {write : Graph → α → Graph} {rows : List α}
    (hnodes : ∀ h a, (write h a).nodes = h.nodes) : (rows.foldl write g).nodes = g.nodes := by
  induction rows generalizing g with
  | nil => rfl
  | cons a rest ih => exact ih.trans (hnodes g a)

/-- Rows are written one by one, and none of them touches a node. -/
theorem steps_foldl {α : Type} {write : Graph → α → Graph} {rows : List α}
    (hnodes : ∀ h a, (write h a).nodes = h.nodes)
    (hstep : ∀ h, h.nodes = g.nodes → ∀ a ∈ rows, Steps now h (write h a)) :
    Steps now g (rows.foldl write g) ∧ (rows.foldl write g).nodes = g.nodes := by
  induction rows generalizing g with
  | nil => exact ⟨.refl, rfl⟩
  | cons a rest ih =>
    obtain ⟨hrest, hkept⟩ := ih (g := write g a) fun h hh b hb =>
      hstep h (hh.trans (hnodes g a)) b (List.mem_cons_of_mem _ hb)
    exact ⟨(hstep g rfl a List.mem_cons_self).trans hrest, hkept.trans (hnodes g a)⟩

end Edges

variable {e : EdgeSchema} {record : Record} {row : Nat × Nat}

theorem nodes_writeEdge : (g.writeEdge now e params record row).nodes = g.nodes :=
  nodes_touchEdge

theorem step_writeEdge (hrow : g.HasEnds row) :
    Step now g (g.writeEdge now e params record row) := by
  rw [writeEdge_eq_touchEdge]
  refine step_touchEdge (hrow.orient e.direction) fun r => ?_
  rw [Mapping.find?_assignAll e.properties.wellFormed.distinct,
    Mapping.ref?_eq_none_iff.2 e.properties.unreserved]

theorem steps_writeRecord {rows : List (Nat × Nat)} (hrows : ∀ row ∈ rows, g.HasEnds row) :
    Steps now g (rows.foldl (writeEdge now e params record) g) ∧
      (rows.foldl (writeEdge now e params record) g).nodes = g.nodes :=
  steps_foldl (fun _ _ => nodes_writeEdge) fun _ hn row hrow =>
    .single (step_writeEdge ((hasEnds_congr hn).2 (hrows row hrow)))

theorem nodes_foldl_writeEdge {rows : List (Nat × Nat)} :
    (rows.foldl (writeEdge now e params record) g).nodes = g.nodes :=
  nodes_foldl fun _ _ => nodes_writeEdge

theorem nodes_writeEdges {batch : List (Record × List (Nat × Nat))} :
    (g.writeEdges now e params batch).nodes = g.nodes :=
  nodes_foldl fun _ _ => nodes_foldl_writeEdge

theorem steps_writeEdges {batch : List (Record × List (Nat × Nat))}
    (hbatch : ∀ b ∈ batch, ∀ row ∈ b.2, g.HasEnds row) :
    Steps now g (g.writeEdges now e params batch) :=
  (steps_foldl (fun _ _ => nodes_foldl_writeEdge) fun _ hn b hb =>
    (steps_writeRecord fun row hrow => (hasEnds_congr hn).2 (hbatch b hb row hrow)).1).1

theorem mem_matching {p : Endpoint} {key : Nat} : key ∈ g.matching record params p ↔
    ∃ c ∈ p.matcher.candidates record params, ∃ n, g.nodes.find? key = some n ∧
      n.hasLabel p.label = true ∧ p.matcher.accepts record params c n = true := by
  simp only [matching, List.mem_flatMap, List.mem_map, List.mem_filter, Prod.exists, mem_labelled]
  constructor
  · rintro ⟨c, hc, k, n, ⟨⟨hn, hl⟩, ha⟩, rfl⟩
    exact ⟨c, hc, n, hn, hl, ha⟩
  · rintro ⟨c, hc, n, hn, hl, ha⟩
    exact ⟨c, hc, key, n, ⟨⟨hn, hl⟩, ha⟩, rfl⟩

theorem mem_edgeRows {u : EdgeUpsert} : row ∈ g.edgeRows u params record ↔
    ∃ id, u.nodeId.resolve record params = some id ∧ g.findNode u.nodeLabel id = some row.1 ∧
      row.2 ∈ g.matching record params u.edge.target := by
  simp only [edgeRows]
  cases hid : u.nodeId.resolve record params with
  | none => simp
  | some id =>
    cases hf : g.findNode u.nodeLabel id with
    | none => simp [hf]
    | some key =>
      obtain ⟨node, other⟩ := row
      simp only [Option.bind_some, hf, List.mem_map, Prod.mk.injEq, Option.some.injEq]
      constructor
      · rintro ⟨other, hm, rfl, rfl⟩
        exact ⟨id, rfl, hf, hm⟩
      · rintro ⟨other', rfl, hk, hm⟩
        cases hf.symm.trans hk
        exact ⟨other, hm, rfl, rfl⟩

theorem hasEnds_of_mem_edgeRows {u : EdgeUpsert} (hrow : row ∈ g.edgeRows u params record) :
    g.HasEnds row := by
  obtain ⟨id, -, hf, hm⟩ := mem_edgeRows.1 hrow
  obtain ⟨n, hn, -⟩ := findNode_eq_some_iff.1 hf
  obtain ⟨-, -, m, hm, -⟩ := mem_matching.1 hm
  exact ⟨⟨n, hn⟩, m, hm⟩

theorem hasEnds_of_mem_linkRows {u : LinkUpsert} (hrow : row ∈ g.linkRows u params record) :
    g.HasEnds row := by
  simp only [linkRows, List.mem_flatMap, List.mem_map] at hrow
  obtain ⟨source, hs, target, ht, rfl⟩ := hrow
  obtain ⟨-, -, n, hn, -⟩ := mem_matching.1 hs
  obtain ⟨-, -, m, hm, -⟩ := mem_matching.1 ht
  exact ⟨⟨n, hn⟩, m, hm⟩

theorem hasEnds_of_mem_linkedPairs {l : PropertyLink} (hrow : row ∈ g.linkedPairs l) :
    g.HasEnds row := by
  simp only [linkedPairs, List.mem_flatMap] at hrow
  obtain ⟨a, ha, hrow⟩ := hrow
  split at hrow
  · cases hrow
  · simp only [List.mem_map, List.mem_filter] at hrow
    obtain ⟨b, ⟨hb, -⟩, rfl⟩ := hrow
    exact ⟨⟨a.2, (mem_labelled.1 ha).1⟩, b.2, (mem_labelled.1 hb).1⟩

theorem steps_of_upsertRows {rows : Record → List (Nat × Nat)} {n : Nat}
    (hrows : ∀ r, ∀ row ∈ rows r, g.HasEnds row)
    (hw : g.upsertRows now e params rows = .ok (h, n)) : Steps now g h := by
  obtain ⟨records, -, hw⟩ := bind_eq_ok_iff.1 hw
  cases hw
  refine steps_writeEdges fun b hb row hrow => ?_
  obtain ⟨r, -, rfl⟩ := List.mem_map.1 hb
  exact hrows r row hrow

theorem steps_of_linkByProperty {l : PropertyLink} {n : Nat}
    (hw : g.linkByProperty now l params = .ok (h, n)) : Steps now g h := by
  obtain ⟨tag, -, hw⟩ := bind_eq_ok_iff.1 hw
  cases hw
  refine (steps_foldl (fun _ _ => nodes_touchEdge) fun i hi pair hpair => ?_).1
  have hends := (hasEnds_congr hi).2 (hasEnds_of_mem_linkedPairs hpair)
  refine .single (step_touchEdge hends fun r => ?_)
  simp [SortedMap.find?_insert, show Names.firstSeen ≠ Names.mark by decide]

/-- Links between nodes leave the nodes alone. -/
theorem nodes_of_linkByProperty {l : PropertyLink} {n : Nat}
    (hw : g.linkByProperty now l params = .ok (h, n)) : h.nodes = g.nodes := by
  obtain ⟨tag, -, hw⟩ := bind_eq_ok_iff.1 hw
  cases hw
  exact nodes_foldl fun _ _ => nodes_touchEdge

/-- A page of a sweep is one removal. -/
theorem eq_remove_of_sweepPage {find : Json → List Nat} {remove : Graph → List Nat → Graph}
    {n : Nat} (hw : g.sweepPage params find remove = .ok (h, n)) : ∃ keys, h = remove g keys := by
  obtain ⟨tag, -, hw⟩ := bind_eq_ok_iff.1 hw
  obtain ⟨size, -, hw⟩ := bind_eq_ok_iff.1 hw
  cases hw
  exact ⟨_, rfl⟩

/-- A statement does nothing but such steps. -/
theorem steps_of_apply {s : Statement} {n : Nat} (hw : g.apply now s params = .ok (h, n)) :
    Steps now g h := by
  cases s with
  | createIndex target =>
    cases hw
    exact .single (.index target)
  | upsertNodes u =>
    obtain ⟨records, -, hw⟩ := bind_eq_ok_iff.1 hw
    obtain ⟨written, hwritten, hw⟩ := bind_eq_ok_iff.1 hw
    cases hw
    exact steps_of_upsertNodes hwritten
  | upsertEdges u => exact steps_of_upsertRows (fun _ _ => hasEnds_of_mem_edgeRows) hw
  | upsertLinks u => exact steps_of_upsertRows (fun _ _ => hasEnds_of_mem_linkRows) hw
  | sweepNodes label scope =>
    obtain ⟨keys, rfl⟩ := eq_remove_of_sweepPage hw
    exact .single (.removeNodes keys)
  | sweepOwnership label scope =>
    obtain ⟨keys, rfl⟩ := eq_remove_of_sweepPage hw
    exact .single (.removeEdges keys)
  | sweepEdges label scope edge =>
    obtain ⟨keys, rfl⟩ := eq_remove_of_sweepPage hw
    exact .single (.removeEdges keys)
  | sweepLinks sweep =>
    obtain ⟨keys, rfl⟩ := eq_remove_of_sweepPage hw
    exact .single (.removeEdges keys)
  | linkByProperty l => exact steps_of_linkByProperty hw
  | raw text => cases hw

theorem execute_cons_eq_ok_iff {b : BoundStatement} {rest : List BoundStatement}
    {affected : List Nat} : g.execute now (b :: rest) = .ok (h, affected) ↔
      b.check = .ok () ∧ ∃ mid n others, g.apply now b.statement b.parameters = .ok (mid, n) ∧
        mid.execute now rest = .ok (h, others) ∧ affected = n :: others := by
  simp only [execute, bind_eq_ok_iff, pure, Except.pure, Except.ok.injEq, Prod.mk.injEq,
    Prod.exists]
  constructor
  · rintro ⟨⟨⟩, hc, mid, n, ha, h', others, hr, rfl, rfl⟩
    exact ⟨hc, mid, n, others, ha, hr, rfl⟩
  · rintro ⟨hc, mid, n, others, ha, hr, rfl⟩
    exact ⟨(), hc, mid, n, ha, h, others, hr, rfl, rfl⟩

theorem steps_of_execute {statements : List BoundStatement} {affected : List Nat}
    (hw : g.execute now statements = .ok (h, affected)) : Steps now g h := by
  induction statements generalizing g affected with
  | nil =>
    cases hw
    exact .refl
  | cons b rest ih =>
    obtain ⟨-, mid, n, others, ha, hr, -⟩ := execute_cons_eq_ok_iff.1 hw
    exact (steps_of_apply ha).trans (ih hr)

end Graph

end GraphSync
