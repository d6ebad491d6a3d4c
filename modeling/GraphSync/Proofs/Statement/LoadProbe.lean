import GraphSync.Proofs.Graph.WellFormed
import GraphSync.Proofs.Load.Batches
import GraphSync.Proofs.Statement.Dependence
import GraphSync.Proofs.Value

/-! Runs of upserts that notice when a parameter is taken away. -/
namespace GraphSync

variable {st : Statement} {name : String} {params : Parameters} {record : Record} {r : PropertyRef}

namespace Statement

/-- A record with a text in every field that a statement refers to. -/
def probeRecord (st : Statement) : Record := .filled (st.references.map (·.name)) (.str "")

/-- A batch of that record, and a text for every other parameter. -/
def loadProbe (st : Statement) : Parameters :=
  Parameters.withBatch (Record.filled st.reads (.str "")) [st.probeRecord]

theorem resolve_loadProbe (hr : r ∈ st.references) (hbatch : Names.batch ∉ r.batchNames) :
    r.resolve st.probeRecord st.loadProbe = some (.str "") := by
  rw [PropertyRef.resolve, PropertyRef.find?]
  split
  · rw [probeRecord, Record.find?_filled (List.mem_map_of_mem hr)]
    rfl
  · next hsource =>
    have hmem : r.name ∈ r.batchNames := PropertyRef.mem_batchNames.2 ⟨hsource, rfl⟩
    have hname : r.name ∈ st.reads :=
      List.mem_append_right _ (List.mem_flatMap.2 ⟨r, hr, hmem⟩)
    have hne : r.name ≠ Names.batch := ne_of_mem_of_not_mem hmem hbatch
    rw [loadProbe, Parameters.withBatch, SortedMap.find?_insert, if_neg hne,
      Record.find?_filled hname]
    rfl

theorem records_loadProbe (st : Statement) : st.loadProbe.records = .ok [st.probeRecord] :=
  Parameters.records_withBatch

theorem records_loadProbe_erase (hne : name ≠ Names.batch) :
    Parameters.records (SortedMap.erase st.loadProbe name) = .ok [st.probeRecord] := by
  rw [← records_loadProbe st]
  refine Parameters.records_of_find? ?_
  rw [SortedMap.find?_erase, if_neg hne.symm]

theorem records_erase_batch (params : Parameters) :
    Parameters.records (SortedMap.erase params Names.batch) =
      .error (.invalidParameter Names.batch .unbound) := by
  simp only [Parameters.records, Parameters.require, SortedMap.find?_erase, if_true]
  rfl

end Statement

namespace Graph

variable {now : Int} {g : Graph} {others : Parameters}

/-- The one node that a record makes of the empty graph. -/
theorem find?_putNode_empty (now : Int) {u : NodeUpsert} {id : Json}
    (hid : u.properties.id.resolve record params = some id) :
    (putNode now u params .empty record).nodes.find? 1 =
      some (u.update params record (u.created now id)) := by
  rw [putNode_of_absent hid rfl, find?_nodes_addNode]
  exact if_pos rfl

/-- Equal upserts into the empty graph have written equal properties. -/
theorem resolve_eq_of_upsertNodes_eq {u : NodeUpsert} (hrecords : params.records = .ok [record])
    (hothers : others.records = .ok [record])
    (hid : (u.properties.id.resolve record params).isSome = true)
    (heq : upsertNodes now .empty u others = upsertNodes now .empty u params) :
    (u.properties.id.resolve record others).isSome = true ∧
      ∀ e ∈ u.properties.assigned, e.2.resolve record others = e.2.resolve record params := by
  have hrun : upsertNodes now .empty u params =
      .ok ([record].foldl (putNode now u params) .empty, 1) :=
    upsertNodes_eq hrecords (List.forall_mem_singleton.2 hid)
  have hsome : (u.properties.id.resolve record others).isSome = true := by
    obtain ⟨records, hread, hwrite⟩ := bind_eq_ok_iff.1 (heq.trans hrun)
    cases hothers.symm.trans hread
    obtain ⟨h, hfold, -⟩ := bind_eq_ok_iff.1 hwrite
    rw [List.foldlM_cons] at hfold
    obtain ⟨mid, hfirst, -⟩ := bind_eq_ok_iff.1 hfold
    cases hnone : u.properties.id.resolve record others with
    | some id => rfl
    | none => simp [writeNode, hnone] at hfirst
  refine ⟨hsome, fun e he => ?_⟩
  rw [hrun, upsertNodes_eq hothers (List.forall_mem_singleton.2 hsome)] at heq
  obtain ⟨id, hid⟩ := Option.isSome_iff_exists.1 hid
  obtain ⟨id', hid'⟩ := Option.isSome_iff_exists.1 hsome
  have hgraph : putNode now u others .empty record = putNode now u params .empty record :=
    congrArg Prod.fst (Except.ok.inj heq)
  have hnode := find?_putNode_empty now hid'
  rw [hgraph, find?_putNode_empty now hid] at hnode
  have hvalue := congrArg (·.get? e.1) (Option.some.inj hnode)
  obtain ⟨hmem, hne⟩ := List.mem_filter.1 he
  have href := Mapping.ref?_of_mem u.properties.wellFormed.distinct hmem
  simp only [NodeUpsert.get?_update, if_neg (bne_iff_ne.1 hne), href] at hvalue
  exact hvalue.symm

variable {e : EdgeSchema} {row : Nat × Nat} {rows rows' : Record → List (Nat × Nat)}

theorem upsertRows_eq (hrecords : params.records = .ok [record]) (hrow : rows record = [row]) :
    g.upsertRows now e params rows = .ok (g.writeEdge now e params record row, 1) := by
  refine bind_eq_ok_iff.2 ⟨_, hrecords, ?_⟩
  simp only [List.map_cons, List.map_nil, hrow]
  rfl

/-- The properties of the one edge that a row makes of a graph without edges. -/
theorem properties_writeEdge (now : Int) (e : EdgeSchema) (params : Parameters)
    (record : Record) (row : Nat × Nat) (hg : g.edges = .empty) :
    ((g.writeEdge now e params record row).edges.find? (g.lastKey + 1)).map (·.properties) =
      some (e.properties.mapping.assignAll record params (createdEdge now)) := by
  have hnone : ∀ start finish, g.findEdge e.edgeType start finish = none := by
    intro start finish
    rw [findEdge, hg]
    rfl
  rw [writeEdge_eq_touchEdge, touchEdge_of_absent (hnone _ _), find?_edges_addEdge, if_pos rfl]
  rfl

/-- Equal upserts of one edge into a graph without edges have written equal properties. -/
theorem resolve_eq_of_upsertRows_eq (hg : g.edges = .empty)
    (hrecords : params.records = .ok [record]) (hothers : others.records = .ok [record])
    (hrow : rows record = [row])
    (heq : g.upsertRows now e others rows' = g.upsertRows now e params rows) :
    rows' record ≠ [] ∧ (rows' record = [row] → ∀ entry ∈ e.properties.mapping,
      entry.2.resolve record others = entry.2.resolve record params) := by
  rw [upsertRows_eq hrecords hrow] at heq
  refine ⟨fun hnil => ?_, fun hsame entry hentry => ?_⟩
  · obtain ⟨records, hread, hwrite⟩ := bind_eq_ok_iff.1 heq
    cases hothers.symm.trans hread
    simp only [List.map_cons, List.map_nil, hnil] at hwrite
    have hcount : 0 = 1 := congrArg Prod.snd (Except.ok.inj hwrite)
    omega
  · rw [upsertRows_eq hothers hsame] at heq
    have hgraph : g.writeEdge now e others record row = g.writeEdge now e params record row :=
      congrArg Prod.fst (Except.ok.inj heq)
    have hedge := properties_writeEdge now e others record row hg
    rw [hgraph, properties_writeEdge now e params record row hg] at hedge
    have hvalue := congrArg (·.find? entry.1) (Option.some.inj hedge)
    have href := Mapping.ref?_of_mem e.properties.wellFormed.distinct hentry
    simp only [Mapping.find?_assignAll e.properties.wellFormed.distinct, href] at hvalue
    exact hvalue.symm

/-- One node with some labels, and with a text under each of some names. -/
def loneNode (labels keys : List String) : Graph :=
  Graph.empty.addNode ⟨.ofKeys labels, .filled keys (.str "")⟩

variable {labels keys : List String} {label : String} {p : Endpoint}

theorem labelled_loneNode (hlabel : label ∈ labels) : (loneNode labels keys).labelled label =
    [(1, ⟨.ofKeys labels, .filled keys (.str "")⟩)] := by
  have hhas : Node.hasLabel ⟨.ofKeys labels, .filled keys (.str "")⟩ label = true :=
    Node.hasLabel_ofKeys.trans (decide_eq_true hlabel)
  exact List.filter_cons_of_pos hhas

theorem findNode_loneNode (hlabel : label ∈ labels) (hid : Names.id ∈ keys) :
    (loneNode labels keys).findNode label (.str "") = some 1 := by
  have hfound : Node.identifiedBy ⟨.ofKeys labels, .filled keys (.str "")⟩ (.str "") = true := by
    rw [Node.identifiedBy, Node.get?, Record.find?_filled hid]
    rfl
  rw [findNode, labelled_loneNode hlabel]
  simp only [List.find?_cons, hfound]
  rfl

/-- A matcher all of whose references have the text accepts the node. -/
theorem matching_loneNode (hlabel : p.label ∈ labels)
    (hkeys : ∀ e ∈ p.matcher.mapping, e.1 ∈ keys)
    (hvalues : ∀ e ∈ p.matcher.mapping, e.2.resolve record params = some (.str "")) :
    (loneNode labels keys).matching record params p = [1] := by
  obtain ⟨candidate, hcandidates, hmany⟩ : ∃ candidate,
      p.matcher.candidates record params = [candidate] ∧
        ∀ e ∈ p.matcher.mapping, e.2.isOneToMany = true → candidate = some (.str "") := by
    cases hone : p.matcher.oneToMany? with
    | none =>
      refine ⟨none, by rw [Matcher.candidates, hone], fun e he hmany => ?_⟩
      cases hone.symm.trans (Matcher.eq_oneToMany he hmany)
    | some e =>
      have hvalue := hvalues e (List.mem_of_find?_eq_some hone)
      refine ⟨some (.str ""), ?_, fun _ _ _ => rfl⟩
      simp only [Matcher.candidates, hone, hvalue]
      rfl
  have haccepts : p.matcher.accepts record params candidate
      ⟨.ofKeys labels, .filled keys (.str "")⟩ = true := by
    refine List.all_eq_true.2 fun e he => ?_
    have hexpected : (if e.2.isOneToMany then candidate else e.2.resolve record params) =
        some (.str "") := by
      split
      · exact hmany e he ‹_›
      · exact hvalues e he
    rw [hexpected, Node.get?, Record.find?_filled (hkeys e he)]
    cases e.2.matchMode with
    | exact => rfl
    | caseInsensitive => rfl
    | fuzzyCaseInsensitive => rfl
  rw [matching, hcandidates, labelled_loneNode hlabel]
  simp only [List.flatMap_singleton, List.filter_cons, haccepts, if_true]
  rfl

/-- A matcher that lacks a value accepts nothing. -/
theorem matching_erase (h : name ∈ p.matcher.mapping.batchNames) :
    g.matching record (SortedMap.erase params name) p = [] := by
  obtain ⟨e, he, hmem⟩ := Mapping.mem_batchNames.1 h
  have hnone : e.2.resolve record (SortedMap.erase params name) = none :=
    PropertyRef.resolve_erase hmem
  refine List.eq_nil_iff_forall_not_mem.2 fun key hkey => ?_
  obtain ⟨c, hc, n, -, -, haccepts⟩ := mem_matching.1 hkey
  by_cases hmany : e.2.isOneToMany = true
  · rw [Matcher.candidates, Matcher.eq_oneToMany he hmany] at hc
    simp only [hnone] at hc
    cases hc
  · have hholds := List.all_eq_true.1 haccepts e he
    rw [if_neg hmany, hnone] at hholds
    simp [MatchMode.accepts] at hholds

end Graph

namespace Statement

open GraphSync.Graph

theorem resolve_erase_ne (hr : r ∈ st.references) (hne : name ≠ Names.batch)
    (hname : name ∈ r.batchNames) :
    r.resolve st.probeRecord (SortedMap.erase st.loadProbe name) ≠
      r.resolve st.probeRecord st.loadProbe := by
  have hbatch : Names.batch ∉ r.batchNames := by
    intro hmem
    exact hne ((PropertyRef.mem_batchNames.1 hname).2.symm.trans
      (PropertyRef.mem_batchNames.1 hmem).2)
  rw [PropertyRef.resolve_erase hname, resolve_loadProbe hr hbatch]
  exact nofun

theorem ne_batch_of_records {records : List Record}
    (h : Parameters.records (SortedMap.erase params name) = .ok records) :
    name ≠ Names.batch := by
  rintro rfl
  cases (records_erase_batch params).symm.trans h

theorem resolve_located (hbatch : Names.batch ∉ st.located.flatMap PropertyRef.batchNames) :
    ∀ r ∈ st.located, r.resolve st.probeRecord st.loadProbe = some (.str "") := by
  intro r hr
  refine resolve_loadProbe (List.mem_append_left _ hr) fun h => hbatch ?_
  exact List.mem_flatMap.2 ⟨r, hr, h⟩

theorem needs_upsertNodes {u : NodeUpsert} (hst : st = upsertNodes u)
    (hcheck : BoundStatement.check ⟨st, st.loadProbe⟩ = .ok ())
    (hbatch : Names.batch ∉ st.located.flatMap PropertyRef.batchNames) (hname : name ∈ st.reads) :
    st.Needs name := by
  have hlocated := resolve_located hbatch
  subst hst
  have hid : (u.properties.id.resolve (upsertNodes u).probeRecord
      (upsertNodes u).loadProbe).isSome = true := by
    rw [hlocated u.properties.id List.mem_cons_self]
    rfl
  refine ⟨0, .empty, _, hcheck, fun heq => ?_⟩
  have hread := records_loadProbe (upsertNodes u)
  obtain ⟨records, hrecords, -⟩ :=
    bind_eq_ok_iff.1 (heq.trans (upsertNodes_eq hread (List.forall_mem_singleton.2 hid)))
  have hne := ne_batch_of_records hrecords
  obtain ⟨hsome, hassigned⟩ :=
    resolve_eq_of_upsertNodes_eq hread (records_loadProbe_erase hne) hid heq
  rcases mem_reads.1 hname with h | h | h
  · exact hne (List.mem_singleton.1 h)
  · rw [located, List.flatMap_singleton] at h
    rw [PropertyRef.resolve_erase h] at hsome
    cases hsome
  · obtain ⟨r, hr, hmem⟩ := List.mem_flatMap.1 h
    obtain ⟨e, he, rfl⟩ := List.mem_map.1 hr
    exact resolve_erase_ne (List.mem_append_right _ hr) hne hmem (hassigned e he)

/-- An upsert of edges that finds one row on a graph without edges, and none when a reference by
which it finds nodes lacks its value. -/
theorem needs_of_rows {e : EdgeSchema} {g : Graph} {row : Nat × Nat}
    {rows : Parameters → Record → List (Nat × Nat)}
    (happly : ∀ params, g.apply 0 st params = g.upsertRows 0 e params (rows params))
    (hfixed : st.fixedNames = [Names.batch])
    (hwritten : st.written = e.properties.mapping.references) (hg : g.edges = .empty)
    (hrow : rows st.loadProbe st.probeRecord = [row])
    (hnone : name ∈ st.located.flatMap PropertyRef.batchNames →
      rows (SortedMap.erase st.loadProbe name) st.probeRecord = [])
    (hsame : name ∉ st.located.flatMap PropertyRef.batchNames →
      rows (SortedMap.erase st.loadProbe name) = rows st.loadProbe)
    (hcheck : BoundStatement.check ⟨st, st.loadProbe⟩ = .ok ()) (hname : name ∈ st.reads) :
    st.Needs name := by
  refine ⟨0, g, _, hcheck, fun heq => ?_⟩
  rw [happly, happly] at heq
  have hread := records_loadProbe st
  obtain ⟨records, hrecords, -⟩ := bind_eq_ok_iff.1 (heq.trans (upsertRows_eq hread hrow))
  have hne := ne_batch_of_records hrecords
  obtain ⟨hrows, hwrote⟩ :=
    resolve_eq_of_upsertRows_eq hg hread (records_loadProbe_erase hne) hrow heq
  have hout : name ∉ st.located.flatMap PropertyRef.batchNames := fun h => hrows (hnone h)
  rcases mem_reads.1 hname with h | h | h
  · rw [hfixed] at h
    exact hne (List.mem_singleton.1 h)
  · exact hout h
  · obtain ⟨r, hr, hmem⟩ := List.mem_flatMap.1 h
    have href : r ∈ e.properties.mapping.references := hwritten ▸ hr
    obtain ⟨entry, hentry, rfl⟩ := List.mem_map.1 href
    have hvalue := hwrote (by rw [hsame hout, hrow]) entry hentry
    exact resolve_erase_ne (List.mem_append_right _ hr) hne hmem hvalue

theorem resolve_erase_located (hout : name ∉ st.located.flatMap PropertyRef.batchNames)
    (hr : r ∈ st.located) (record : Record) :
    r.resolve record (SortedMap.erase params name) = r.resolve record params :=
  PropertyRef.resolve_erase_of_not_mem fun h => hout (List.mem_flatMap.2 ⟨r, hr, h⟩)

theorem needs_upsertEdges {u : EdgeUpsert} (hst : st = upsertEdges u)
    (hcheck : BoundStatement.check ⟨st, st.loadProbe⟩ = .ok ())
    (hbatch : Names.batch ∉ st.located.flatMap PropertyRef.batchNames) (hname : name ∈ st.reads) :
    st.Needs name := by
  have hlocated := resolve_located hbatch
  subst hst
  let g := loneNode [u.nodeLabel, u.edge.target.label] (Names.id :: u.edge.target.matcher.keys)
  have happly : ∀ params, g.apply 0 (upsertEdges u) params =
      g.upsertRows 0 u.edge params (g.edgeRows u params) := fun _ => rfl
  have hnode := hlocated u.nodeId List.mem_cons_self
  have hfound : g.findNode u.nodeLabel (.str "") = some 1 :=
    findNode_loneNode List.mem_cons_self List.mem_cons_self
  have htarget : g.matching (upsertEdges u).probeRecord (upsertEdges u).loadProbe u.edge.target =
      [1] := by
    refine matching_loneNode (by simp) (fun e he => ?_) fun e he => ?_
    · exact List.mem_cons_of_mem _ (List.mem_map_of_mem he)
    · exact hlocated e.2 (List.mem_cons_of_mem _ (List.mem_map_of_mem he))
  have hrow : g.edgeRows u (upsertEdges u).loadProbe (upsertEdges u).probeRecord = [(1, 1)] := by
    simp only [edgeRows, hnode, Option.bind_some, hfound, htarget]
    rfl
  refine needs_of_rows happly rfl rfl rfl hrow (fun h => ?_) (fun h => ?_) hcheck hname
  · rw [located, List.flatMap_cons, Mapping.batchNames_eq, List.mem_append] at h
    refine List.eq_nil_iff_forall_not_mem.2 fun row hmem => ?_
    obtain ⟨id, hid, -, hother⟩ := mem_edgeRows.1 hmem
    rcases h with h | h
    · cases (PropertyRef.resolve_erase h).symm.trans hid
    · rw [matching_erase h] at hother
      cases hother
  · refine edgeRows_of_resolve (resolve_erase_located h List.mem_cons_self) fun record e he => ?_
    exact resolve_erase_located h (List.mem_cons_of_mem _ (List.mem_map_of_mem he)) record

theorem needs_upsertLinks {u : LinkUpsert} (hst : st = upsertLinks u)
    (hcheck : BoundStatement.check ⟨st, st.loadProbe⟩ = .ok ())
    (hbatch : Names.batch ∉ st.located.flatMap PropertyRef.batchNames) (hname : name ∈ st.reads) :
    st.Needs name := by
  have hlocated := resolve_located hbatch
  subst hst
  let g := loneNode [u.source.label, u.edge.target.label]
    (u.source.matcher.keys ++ u.edge.target.matcher.keys)
  have happly : ∀ params, g.apply 0 (upsertLinks u) params =
      g.upsertRows 0 u.edge params (g.linkRows u params) := fun _ => rfl
  have hsource : g.matching (upsertLinks u).probeRecord (upsertLinks u).loadProbe u.source =
      [1] := by
    refine matching_loneNode (by simp) (fun e he => ?_) fun e he => ?_
    · exact List.mem_append_left _ (List.mem_map_of_mem he)
    · exact hlocated e.2 (List.mem_append_left _ (List.mem_map_of_mem he))
  have htarget : g.matching (upsertLinks u).probeRecord (upsertLinks u).loadProbe u.edge.target =
      [1] := by
    refine matching_loneNode (by simp) (fun e he => ?_) fun e he => ?_
    · exact List.mem_append_right _ (List.mem_map_of_mem he)
    · exact hlocated e.2 (List.mem_append_right _ (List.mem_map_of_mem he))
  have hrow : g.linkRows u (upsertLinks u).loadProbe (upsertLinks u).probeRecord = [(1, 1)] := by
    rw [linkRows, hsource, htarget]
    rfl
  refine needs_of_rows happly rfl rfl rfl hrow (fun h => ?_) (fun h => ?_) hcheck hname
  · rw [located, List.flatMap_append, Mapping.batchNames_eq, Mapping.batchNames_eq,
      List.mem_append] at h
    rcases h with h | h
    · rw [linkRows, matching_erase h, List.flatMap_nil]
    · rw [linkRows, matching_erase h]
      exact List.flatMap_eq_nil_iff.2 fun _ _ => rfl
  · refine linkRows_of_resolve (fun record e he => ?_) fun record e he => ?_
    · exact resolve_erase_located h (List.mem_append_left _ (List.mem_map_of_mem he)) record
    · exact resolve_erase_located h (List.mem_append_right _ (List.mem_map_of_mem he)) record

end Statement

end GraphSync
