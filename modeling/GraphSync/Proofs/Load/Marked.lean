import GraphSync.Proofs.Cleanup.Pages
import GraphSync.Proofs.Load.Chunking
import GraphSync.Proofs.Load.Writes
import GraphSync.Proofs.Value

/-! Which edges a load writes, and when a load marks everything that it writes with its tag. -/
namespace GraphSync

namespace Graph

variable (now : Int)

/-- The edges that rows find, or create, as they are written one by one. -/
def joinRows (params : Parameters) : Graph → List EdgeWrite → List Nat
  | _, [] => []
  | g, w :: rest => (g.locateEdge now w.schema.edgeType w.ends.1 w.ends.2).2 ::
      joinRows params (g.putEdge now params w) rest

/-- The edges that a statement finds or creates for the records of its batch. -/
def joins (g : Graph) (b : BoundStatement) : List Nat :=
  match b.statement, b.parameters.records with
  | .upsertEdges u, .ok records =>
    g.joinRows now b.parameters (g.schemaWrites u b.parameters records)
  | _, _ => []

/-- The edges that statements find or create, one after the other. -/
def joined : Graph → List BoundStatement → List Nat
  | _, [] => []
  | g, b :: rest =>
    g.joins now b ++
      match g.apply now b.statement b.parameters with
      | .ok (h, _) => joined h rest
      | .error _ => []

end Graph

/-- The edges that a load writes: those that a row of a record finds or creates. -/
def Load.joined (config : LoaderConfig) (now : Int) (s : NodeSchema) (records : List Record)
    (params : Parameters) (tag : Int) (g : Graph) : List Nat :=
  (Load.ensureIndexes now s g).2.joined now
    ((Load.chunks config.batchSize (Load.kept s records params)).flatMap
      (Load.bindBatch s.loadStatements (Load.baseParameters params tag)))

/-- The mark of an edge is the tag of the load that writes it. -/
def EdgeSchema.MarksLoad (e : EdgeSchema) : Prop :=
  ∃ r, e.properties.mapping.ref? Names.mark = some r ∧ r.source = .batchParameter ∧
    r.name = Names.loadTag

/-- From one graph to another, marked edges stay marked and those of some keys are marked. -/
structure Graph.MarksEdges (tag : Int) (g h : Graph) (keys : List Nat) : Prop where
  kept : ∀ {key e}, g.edges.find? key = some e → e.properties.find? Names.mark = some (.int tag) →
    ∃ x, h.edges.find? key = some x ∧ x.properties.find? Names.mark = some (.int tag)
  marked : ∀ key ∈ keys, ∃ e, h.edges.find? key = some e ∧
    e.properties.find? Names.mark = some (.int tag)

namespace Graph

variable {g h i : Graph} {now tag : Int} {s : NodeSchema} {params base : Parameters}
  {records : List Record} {keys more : List Nat} {w : EdgeWrite} {ws : List EdgeWrite}

theorem MarksEdges.of_edges_eq (he : h.edges = g.edges) : MarksEdges tag g h [] :=
  ⟨fun {key e} hk hm => ⟨e, by rw [he, hk], hm⟩, fun _ hk => by cases hk⟩

theorem MarksEdges.trans (hg : MarksEdges tag g h keys) (hh : MarksEdges tag h i more) :
    MarksEdges tag g i (keys ++ more) := by
  refine ⟨fun hk hm => ?_, fun key hk => ?_⟩
  · obtain ⟨x, hx, hmx⟩ := hg.kept hk hm
    exact hh.kept hx hmx
  · rcases List.mem_append.1 hk with hk | hk
    · obtain ⟨x, hx, hmx⟩ := hg.marked key hk
      exact hh.kept hx hmx
    · exact hh.marked key hk

/-- A row is written to the edge that it finds or creates, and to no other. -/
theorem find?_putEdge (now : Int) (params : Parameters) (g : Graph) (w : EdgeWrite) :
    ∃ e, ∀ key, (g.putEdge now params w).edges.find? key =
      if key = (g.locateEdge now w.schema.edgeType w.ends.1 w.ends.2).2 then
        some (w.update params e)
      else g.edges.find? key := by
  rw [putEdge_eq_touchEdge]
  cases hf : g.findEdge w.schema.edgeType w.ends.1 w.ends.2 with
  | some place =>
    obtain ⟨e, he, -⟩ := findEdge_eq_some hf
    rw [touchEdge_of_found hf he]
    simp only [locateEdge, hf]
    exact ⟨e, fun key => find?_edges_setEdge⟩
  | none =>
    rw [touchEdge_of_absent hf]
    simp only [locateEdge, hf]
    exact ⟨⟨w.schema.edgeType, w.ends.1, w.ends.2, createdEdge now⟩,
      fun key => find?_edges_addEdge⟩

theorem find?_mark_update (hw : w.schema.MarksLoad) (e : Edge) :
    (w.update ((Load.baseParameters params tag).withBatch records) e).properties.find? Names.mark =
      some (.int tag) := by
  obtain ⟨r, hr, hsource, hname⟩ := hw
  rw [EdgeWrite.update, Mapping.find?_assignAll w.schema.properties.wellFormed.distinct, hr]
  simp only [PropertyRef.resolve, PropertyRef.find?, hsource, hname, Parameters.withBatch,
    Load.baseParameters, SortedMap.find?_insert]
  simp [show Names.loadTag ≠ Names.batch by decide, Json.present, Json.int]

theorem marksEdges_putEdge (now : Int) (hw : w.schema.MarksLoad) (g : Graph) :
    MarksEdges tag g (g.putEdge now ((Load.baseParameters params tag).withBatch records) w)
      [(g.locateEdge now w.schema.edgeType w.ends.1 w.ends.2).2] := by
  obtain ⟨e, hput⟩ := find?_putEdge now ((Load.baseParameters params tag).withBatch records) g w
  refine ⟨fun {key x} hx hm => ?_, fun key hk => ?_⟩
  · rw [hput]
    split
    · exact ⟨_, rfl, find?_mark_update hw e⟩
    · exact ⟨x, hx, hm⟩
  · rw [hput, if_pos (List.mem_singleton.1 hk)]
    exact ⟨_, rfl, find?_mark_update hw e⟩

theorem marksEdges_joinRows (now : Int) (hws : ∀ w ∈ ws, w.schema.MarksLoad) (g : Graph) :
    MarksEdges tag g
      (ws.foldl (fun h w => h.putEdge now ((Load.baseParameters params tag).withBatch records) w) g)
      (g.joinRows now ((Load.baseParameters params tag).withBatch records) ws) := by
  induction ws generalizing g with
  | nil => exact .of_edges_eq rfl
  | cons w ws ih =>
    obtain ⟨hw, hrest⟩ := List.forall_mem_cons.1 hws
    exact (marksEdges_putEdge now hw g).trans (ih hrest _)

theorem joined_append {xs ys : List BoundStatement} {ns : List Nat}
    (hx : g.execute now xs = .ok (h, ns)) :
    g.joined now (xs ++ ys) = g.joined now xs ++ h.joined now ys :=
  append_of_trace (joins now) (fun _ => rfl) (fun ha => by simp only [joined, ha]) hx

/-- The edge statements of a batch mark every edge that they write. -/
theorem marksEdges_upsertEdges {es : List EdgeSchema} (hn : h.nodes = g.nodes)
    (hes : ∀ e ∈ es, e.MarksLoad) (hbase : base = Load.baseParameters params tag) :
    MarksEdges tag h
      (es.foldl (fun h e => h.writeEdges now e (base.withBatch records)
        (g.rowsOf s (base.withBatch records) e records)) h)
      (h.joined now (es.map fun e => ⟨.upsertEdges (s.edgeUpsert e), base.withBatch records⟩)) := by
  induction es generalizing h with
  | nil => exact .of_edges_eq rfl
  | cons e es ih =>
    obtain ⟨he, hrest⟩ := List.forall_mem_cons.1 hes
    have hrecords : (base.withBatch records).records = .ok records :=
      Parameters.records_withBatch
    have hfirst : MarksEdges tag h (h.writeEdges now e (base.withBatch records)
        (g.rowsOf s (base.withBatch records) e records))
        (h.joins now ⟨.upsertEdges (s.edgeUpsert e), base.withBatch records⟩) := by
      simp only [joins, hrecords, writeEdges_eq_foldl, schemaWrites_congr hn]
      subst hbase
      refine marksEdges_joinRows now (fun w hw => ?_) h
      rw [(mem_schemaWrites.1 hw).1]
      exact he
    simp only [List.map_cons, joined, apply_upsertEdges hn hrecords]
    exact hfirst.trans (ih (nodes_writeEdges.trans hn) hrest)

end Graph

namespace Load

variable {g h : Graph} {now tag : Int} {s : NodeSchema} {params : Parameters}
  {records : List Record} {config : LoaderConfig} {summary : LoadSummary}

/-- Batches mark every edge that they write. -/
theorem marksEdges_batches (now : Int) (g : Graph) {cs : List (List Record)}
    (hes : ∀ e ∈ s.allEdges, e.MarksLoad)
    (hid : ∀ c ∈ cs, ∀ r ∈ c,
      (s.properties.id.resolve r ((baseParameters params tag).withBatch c)).isSome = true)
    (hcheck : ∀ st ∈ s.loadStatements,
      BoundStatement.check ⟨st, baseParameters params tag⟩ = .ok ()) :
    Graph.MarksEdges tag g (batches now s (baseParameters params tag) g cs)
      (g.joined now (cs.flatMap (bindBatch s.loadStatements (baseParameters params tag)))) := by
  induction cs generalizing g with
  | nil => exact .of_edges_eq rfl
  | cons c cs ih =>
    obtain ⟨hfirst, hrest⟩ := List.forall_mem_cons.1 hid
    have hrecords : ((baseParameters params tag).withBatch c).records = .ok c :=
      Parameters.records_withBatch
    have hrun := execute_bindBatch now g contains_baseParameters hfirst hcheck
    have hbatch : Graph.MarksEdges tag g
        (g.loadBatch now s ((baseParameters params tag).withBatch c) c)
        (g.joined now (s.loadStatements.map
          fun st => ⟨st, (baseParameters params tag).withBatch c⟩)) := by
      rw [NodeSchema.loadStatements_eq, List.map_cons, List.map_map]
      simp only [Graph.joined, Graph.joins, Graph.apply_upsertNodes hrecords hfirst]
      have hnodes : Graph.MarksEdges tag g
          (g.putNodes now s ((baseParameters params tag).withBatch c) c) [] :=
        .of_edges_eq Graph.edges_putNodes
      exact hnodes.trans (Graph.marksEdges_upsertEdges rfl hes rfl)
    rw [List.flatMap_cons, Graph.joined_append hrun]
    exact hbatch.trans (ih _ hrest)

theorem marksEdges_of_nodes (hes : ∀ e ∈ s.allEdges, e.MarksLoad)
    (hl : Load.nodes config now s records params tag g = (.ok summary, h)) :
    Graph.MarksEdges tag g h (joined config now s records params tag g) := by
  obtain ⟨hcheck, rfl⟩ := batches_of_nodes hl
  have hid : ∀ c ∈ chunks config.batchSize (kept s records params), ∀ r ∈ c,
      (s.properties.id.resolve r ((baseParameters params tag).withBatch c)).isSome = true :=
    fun _ hc _ hr => isSome_resolve_of_mem_chunks_kept hc hr
  have hrun := marksEdges_batches now (indexed s g) hes hid hcheck
  have hsame : Graph.MarksEdges tag g (indexed s g) [] := .of_edges_eq rfl
  rw [joined, ensureIndexes_eq]
  exact hsame.trans hrun

end Load

namespace NodeSchema

/-- Every load marks the nodes that it writes with its tag. -/
def LoadsMarked (s : NodeSchema) : Prop :=
  ∀ (config : LoaderConfig) (now tag : Int) (g h : Graph) (records : List Record)
    (params : Parameters) (summary : LoadSummary), g.Reachable →
    Load.nodes config now s records params tag g = (.ok summary, h) →
    ∀ key ∈ Load.written config now s records params tag g, ∃ n,
      h.nodes.find? key = some n ∧ n.get? Names.mark = some (.int tag)

variable {s : NodeSchema} {g h : Graph} {now tag : Int} {params : Parameters}
  {records : List Record} {config : LoaderConfig} {summary : LoadSummary}

/-- A text for everything that a load reads. -/
def probe (s : NodeSchema) : Record := Record.filled (s.references.map (·.name)) (.str "")

theorem find?_probe {r : PropertyRef} (hr : r ∈ s.references) :
    s.probe.find? r.name = some (.str "") :=
  Record.find?_filled (List.mem_map_of_mem hr)

theorem mem_references_of_ref? {name : String} {r : PropertyRef}
    (hr : s.properties.mapping.ref? name = some r) : r ∈ s.references := by
  obtain ⟨entry, hentry, rfl⟩ := Option.map_eq_some_iff.1 hr
  exact List.mem_map_of_mem (List.mem_append_left _ (List.mem_of_find?_eq_some hentry))

/-- The probe can be loaded, as its own parameters, and is written as a node. -/
theorem exists_load_probe (s : NodeSchema) (tag : Int) : ∃ summary h key n,
    Load.nodes {} 0 s [s.probe] s.probe tag .empty = (.ok summary, h) ∧
      key ∈ Load.written {} 0 s [s.probe] s.probe tag .empty ∧
      h.nodes.find? key = some (s.upsert.update
        ((Load.baseParameters s.probe tag).withBatch [s.probe]) s.probe n) := by
  have hcheck : ∀ st ∈ s.loadStatements,
      BoundStatement.check ⟨st, Load.baseParameters s.probe tag⟩ = .ok () := by
    refine Load.forall_check_iff.2 fun r hr _ => ?_
    have hbound : SortedMap.contains s.probe r.name = true := by
      rw [SortedMap.contains, find?_probe hr]
      rfl
    rw [Load.baseParameters, SortedMap.contains_insert, SortedMap.contains_insert, hbound,
      Bool.or_true, Bool.or_true]
  have hid : (s.properties.id.resolve s.probe s.probe).isSome = true := by
    have hfind := find?_probe (List.mem_map_of_mem (List.mem_append_left _ s.properties.id_mem))
    rw [PropertyRef.resolve, PropertyRef.find?]
    split <;> rw [hfind] <;> rfl
  have hsome : (s.properties.id.resolve s.probe
      ((Load.baseParameters s.probe tag).withBatch [s.probe])).isSome = true :=
    Load.isSome_resolve_withBatch hid
  obtain ⟨id, hbound⟩ := Option.isSome_iff_exists.1 hsome
  obtain ⟨summary, h, hload⟩ := Load.nodes_of_check {} 0 [s.probe] .empty hcheck
  obtain ⟨-, hh⟩ := Load.batches_of_nodes hload
  have hone : Load.chunks ({} : LoaderConfig).batchSize (Load.kept s [s.probe] s.probe) =
      [[s.probe]] := by
    have hkept : Load.kept s [s.probe] s.probe = [s.probe] := by simp [Load.kept, hid]
    rw [hkept, Load.chunks_of_length_le (List.cons_ne_nil _ _) (by simp)]
  obtain ⟨n, -, -, hput⟩ := Graph.find?_putNode (u := s.upsert) 0 (Load.indexed s .empty) hbound
  refine ⟨summary, h, (Graph.locateNode 0 (Load.indexed s .empty) s.label id).2, n, hload, ?_, ?_⟩
  · rw [Load.written, Load.ensureIndexes_eq, hone, List.flatMap_singleton, Load.bindBatch_eq]
    refine (Graph.mem_picked_batch (Load.wellFormed_indexed .empty) Parameters.records_withBatch
      fun r hr => ?_).2 ?_
    · rw [List.mem_singleton.1 hr, hbound]
      rfl
    · rw [Graph.pickNodes_cons (u := s.upsert) hbound]
      exact List.mem_cons_self
  · rw [hh, hone]
    exact (congrArg (SortedMap.find? · _) Graph.nodes_loadBatch).trans ((hput _).trans (if_pos rfl))

/-- A schema whose mark is anything but the tag of the load writes nodes that are not marked. -/
theorem marksLoad_of_loadsMarked (hs : s.LoadsMarked) : s.MarksLoad := by
  obtain ⟨r, hr⟩ := Option.isSome_iff_exists.1 (Mapping.ref?_isSome s.properties.marked)
  obtain ⟨summary, h, key, n, hload, hkey, hn⟩ := exists_load_probe s 0
  obtain ⟨m, hm, hmark⟩ := hs {} 0 0 .empty h [s.probe] s.probe summary .empty hload key hkey
  cases hn.symm.trans hm
  have hmapping : s.upsert.properties.mapping.ref? Names.mark = some r := hr
  have hprobe := find?_probe (mem_references_of_ref? hr)
  rw [NodeUpsert.get?_update, if_neg (by decide), hmapping] at hmark
  simp only [PropertyRef.resolve, PropertyRef.find?] at hmark
  cases hsource : r.source with
  | recordField =>
    rw [hsource] at hmark
    simp [hprobe, Json.present, Json.int] at hmark
  | batchParameter =>
    refine ⟨r, hr, hsource, Decidable.byContradiction fun hname => ?_⟩
    simp only [hsource, Parameters.withBatch, Load.baseParameters, SortedMap.find?_insert,
      hprobe, if_neg hname] at hmark
    split at hmark <;> simp [Json.present, Json.int] at hmark

/-- Under the tag of a load, what the load wrote is fresh, and the schema's cleanup leaves it, an
edge unless it takes one of its nodes: nodes if their mark is the tag that the load binds, edges if
the marks of all edges are. For nodes this is also necessary: a schema may declare its mark and
still take it from elsewhere, and then some load writes nodes that are not marked with its tag. -/
theorem loads_fresh_iff_marks (later : Int) (common : CommonParameters) (hg : g.Reachable)
    (htag : -Word.signedBound ≤ tag ∧ tag < Word.signedBound) (hcommon : common.tag = tag)
    (hload : Load.nodes config now s records params tag g = (.ok summary, h)) :
    (s.MarksLoad → ∀ key ∈ Load.written config now s records params tag g, ∃ n,
      h.nodes.find? key = some n ∧ n.get? Names.mark = some (.int tag) ∧
        n.properties.isStale (.int tag) = false ∧
        ∀ i, (Job.cleanup s common).Visits later h i → i.nodes.find? key = some n) ∧
    ((∀ e ∈ s.allEdges, e.MarksLoad) →
      ∀ key ∈ Load.joined config now s records params tag g, ∃ e,
        h.edges.find? key = some e ∧ e.properties.find? Names.mark = some (.int tag) ∧
          e.properties.isStale (.int tag) = false ∧
          ∀ i, (Job.cleanup s common).Visits later h i →
            i.edges.find? key = some e ∨ h.Lost i e.start ∨ h.Lost i e.finish) ∧
    (s.LoadsMarked → s.MarksLoad) := by
  subst hcommon
  refine ⟨fun hs key hkey => ?_, fun hes key hkey => ?_, marksLoad_of_loadsMarked⟩
  · obtain ⟨n, hn, -, hmark⟩ := (Load.marks_of_nodes hs hg.wellFormed hload).marked key hkey
    have hfresh := Record.not_isStale_of_tagged htag hmark
    refine ⟨n, hn, hmark, hfresh, fun i hi => ?_⟩
    have hspares := spares_of_visits hi
    cases hleft : i.nodes.find? key with
    | some m => rw [← hn, hspares.within.node hleft]
    | none =>
      obtain ⟨m, hm, -, hstale, -⟩ := hspares.node hn hleft
      cases hn.symm.trans hm
      exact absurd hstale (Bool.eq_false_iff.1 hfresh)
  · obtain ⟨e, he, hmark⟩ := (Load.marksEdges_of_nodes hes hload).marked key hkey
    have hfresh := Record.not_isStale_of_tagged htag hmark
    refine ⟨e, he, hmark, hfresh, fun i hi => ?_⟩
    have hspares := spares_of_visits hi
    cases hleft : i.edges.find? key with
    | some x =>
      rw [← he, hspares.within.edge hleft]
      exact .inl rfl
    | none =>
      rcases hspares.edge he hleft with hlost | ⟨hstale, -⟩
      · exact .inr hlost
      · exact absurd hstale (Bool.eq_false_iff.1 hfresh)

/-- A bucket and its edges are loaded, and a cleanup finds them fresh. -/
theorem loads_fresh_iff_marks_of_sample : ∃ summary h,
    Load.nodes {} 5 Sample.bucket Sample.records Sample.params 2 Sample.start = (.ok summary, h) ∧
      ∀ key ∈ Load.joined {} 5 Sample.bucket Sample.records Sample.params 2 Sample.start, ∃ e,
        h.edges.find? key = some e ∧ e.properties.find? Names.mark = some (.int 2) ∧
          e.properties.isStale (.int 2) = false ∧
          ∀ i, (Job.cleanup Sample.bucket Sample.common).Visits 9 h i →
            i.edges.find? key = some e ∨ h.Lost i e.start ∨ h.Lost i e.finish := by
  obtain ⟨summary, h, hload⟩ := Load.nodes_of_check {} 5 Sample.records Sample.start
    Sample.check_load
  have hmarks : ∀ e ∈ Sample.bucket.allEdges, e.MarksLoad :=
    List.forall_mem_cons.2 ⟨⟨.batch Names.loadTag, rfl, rfl, rfl⟩,
      List.forall_mem_singleton.2 ⟨.batch Names.loadTag, rfl, rfl, rfl⟩⟩
  have hfresh := loads_fresh_iff_marks 9 Sample.common Sample.reachable_start (by decide) rfl hload
  exact ⟨summary, h, hload, hfresh.2.1 hmarks⟩

end NodeSchema

end GraphSync
