import GraphSync.Proofs.Graph.Step
import GraphSync.Proofs.Load.Indexes
import GraphSync.Proofs.Statement.Names

/-! What a load makes of a graph, batch by batch. -/
namespace GraphSync

namespace Parameters

variable {params : Parameters} {records : List Record}

theorem recordOf_ofRecord (r : Record) : recordOf (Json.ofRecord r) = .ok r := by
  simp only [recordOf, Json.ofRecord, Json.record?, SortedMap.ofList_entries]

theorem mapM_recordOf (records : List Record) :
    (records.map Json.ofRecord).mapM recordOf = .ok records := by
  induction records with
  | nil => rfl
  | cons r rest ih => simp only [List.map_cons, List.mapM_cons, recordOf_ofRecord, ih]; rfl

/-- Parameters with the records of a batch. -/
def withBatch (params : Parameters) (records : List Record) : Parameters :=
  params.insert Names.batch (.arr (records.map Json.ofRecord))

theorem records_withBatch : (params.withBatch records).records = .ok records := by
  have hreq : Parameters.require (params.withBatch records) Names.batch =
      .ok (.arr (records.map Json.ofRecord)) := by
    simp [Parameters.require, withBatch, SortedMap.find?_insert]
  simp only [Parameters.records, hreq]
  exact mapM_recordOf records

end Parameters

namespace BoundStatement

/-- A check asks which parameters have a value, not which value. -/
theorem check_withBatch {s : Statement} {params : Parameters} {records : List Record}
    (hb : params.contains Names.batch = true) :
    check ⟨s, params.withBatch records⟩ = check ⟨s, params⟩ := by
  have hc : ∀ name, (params.withBatch records).contains name = params.contains name := by
    intro name
    rw [Parameters.withBatch, SortedMap.contains_insert]
    by_cases h : name = Names.batch
    · rw [h, hb]
      simp
    · simp [h]
  simp only [check, unbound?, hc]

end BoundStatement

namespace Graph

variable {g h : Graph} {now : Int} {s : NodeSchema} {params : Parameters} {records : List Record}

theorem labelled_congr (hn : h.nodes = g.nodes) (label : String) :
    h.labelled label = g.labelled label := by
  rw [labelled, labelled, hn]

theorem findNode_congr (hn : h.nodes = g.nodes) : h.findNode = g.findNode := by
  funext label id
  rw [findNode, findNode, labelled_congr hn]

/-- Rows are read off the nodes alone. -/
theorem edgeRows_congr (hn : h.nodes = g.nodes) (u : EdgeUpsert) :
    h.edgeRows u params = g.edgeRows u params := by
  funext record
  simp only [edgeRows, findNode_congr hn, matching, labelled_congr hn]

/-- The nodes of a batch, written one by one. -/
def putNodes (now : Int) (s : NodeSchema) (params : Parameters) (g : Graph)
    (records : List Record) : Graph :=
  records.foldl (putNode now s.upsert params) g

/-- Every record with its rows for one of the schema's edges. -/
def rowsOf (s : NodeSchema) (params : Parameters) (g : Graph) (e : EdgeSchema)
    (records : List Record) : List (Record × List (Nat × Nat)) :=
  records.map fun r => (r, g.edgeRows (s.edgeUpsert e) params r)

/-- The edges of a batch whose nodes are written, one schema after the other. -/
def putEdges (now : Int) (s : NodeSchema) (params : Parameters) (g : Graph)
    (records : List Record) : Graph :=
  s.allEdges.foldl (fun h e => h.writeEdges now e params (g.rowsOf s params e records)) g

/-- What one batch makes of a graph. -/
def loadBatch (now : Int) (s : NodeSchema) (params : Parameters) (g : Graph)
    (records : List Record) : Graph :=
  (g.putNodes now s params records).putEdges now s params records

/-- How many rows there are for each of the schema's edges. -/
def rowCounts (s : NodeSchema) (params : Parameters) (g : Graph) (records : List Record) :
    List Nat :=
  s.allEdges.map fun e => total ((g.rowsOf s params e records).map (·.2.length))

theorem nodes_putEdges : (g.putEdges now s params records).nodes = g.nodes := by
  have hall : ∀ (es : List EdgeSchema) (h : Graph), (es.foldl
      (fun h e => h.writeEdges now e params (g.rowsOf s params e records)) h).nodes = h.nodes := by
    intro es
    induction es with
    | nil => exact fun _ => rfl
    | cons e es ih => exact fun h => (ih _).trans nodes_writeEdges
  exact hall s.allEdges g

theorem nodes_loadBatch :
    (g.loadBatch now s params records).nodes = (g.putNodes now s params records).nodes :=
  nodes_putEdges

theorem foldlM_writeNode {u : NodeUpsert}
    (hid : ∀ r ∈ records, (u.properties.id.resolve r params).isSome = true) :
    records.foldlM (writeNode now u params) g = .ok (records.foldl (putNode now u params) g) := by
  induction records generalizing g with
  | nil => rfl
  | cons r rest ih =>
    obtain ⟨hr, hrest⟩ := List.forall_mem_cons.1 hid
    obtain ⟨id, hr⟩ := Option.isSome_iff_exists.1 hr
    rw [List.foldlM_cons, writeNode_eq_putNode hr]
    exact ih hrest

theorem apply_upsertEdges {e : EdgeSchema} (hn : h.nodes = g.nodes)
    (hrecords : params.records = .ok records) :
    h.apply now (.upsertEdges (s.edgeUpsert e)) params =
      .ok (h.writeEdges now e params (g.rowsOf s params e records),
        total ((g.rowsOf s params e records).map (·.2.length))) := by
  simp only [apply, upsertEdges, upsertRows, hrecords, edgeRows_congr hn]
  rfl

theorem upsertNodes_eq {u : NodeUpsert} (hrecords : params.records = .ok records)
    (hid : ∀ r ∈ records, (u.properties.id.resolve r params).isSome = true) :
    g.upsertNodes now u params = .ok (records.foldl (putNode now u params) g, records.length) :=
  bind_eq_ok_iff.2 ⟨_, hrecords, bind_eq_ok_iff.2 ⟨_, foldlM_writeNode hid, rfl⟩⟩

theorem apply_upsertNodes (hrecords : params.records = .ok records)
    (hid : ∀ r ∈ records, (s.properties.id.resolve r params).isSome = true) :
    g.apply now (.upsertNodes s.upsert) params =
      .ok (g.putNodes now s params records, records.length) :=
  upsertNodes_eq hrecords hid

/-- The edge statements of a batch find the same rows as before the first of them. -/
theorem execute_upsertEdges (now : Int) {es : List EdgeSchema} (hn : h.nodes = g.nodes)
    (hrecords : params.records = .ok records)
    (hcheck : ∀ e ∈ es, BoundStatement.check ⟨.upsertEdges (s.edgeUpsert e), params⟩ = .ok ()) :
    h.execute now (es.map fun e => ⟨.upsertEdges (s.edgeUpsert e), params⟩) =
      .ok (es.foldl (fun h e => h.writeEdges now e params (g.rowsOf s params e records)) h,
        es.map fun e => total ((g.rowsOf s params e records).map (·.2.length))) := by
  induction es generalizing h with
  | nil => rfl
  | cons e es ih =>
    obtain ⟨hfirst, hrest⟩ := List.forall_mem_cons.1 hcheck
    have hnext := ih (h := h.writeEdges now e params (g.rowsOf s params e records))
      (nodes_writeEdges.trans hn) hrest
    exact execute_cons_eq_ok_iff.2 ⟨hfirst, _, _, _, apply_upsertEdges hn hrecords, hnext, rfl⟩

/-- One batch never fails once its parameters are bound and its records have identities. -/
theorem execute_batch (now : Int) (g : Graph) (hrecords : params.records = .ok records)
    (hid : ∀ r ∈ records, (s.properties.id.resolve r params).isSome = true)
    (hcheck : ∀ st ∈ s.loadStatements, BoundStatement.check ⟨st, params⟩ = .ok ()) :
    g.execute now (s.loadStatements.map fun st => ⟨st, params⟩) =
      .ok (g.loadBatch now s params records,
        records.length :: (g.putNodes now s params records).rowCounts s params records) := by
  rw [NodeSchema.loadStatements_eq] at hcheck ⊢
  obtain ⟨hfirst, hrest⟩ := List.forall_mem_cons.1 hcheck
  have hedges := execute_upsertEdges (s := s) now (h := g.putNodes now s params records) rfl
    hrecords fun e he => hrest _ (List.mem_map_of_mem he)
  rw [List.map_cons, List.map_map]
  exact execute_cons_eq_ok_iff.2
    ⟨hfirst, _, _, _, apply_upsertNodes hrecords hid, hedges, rfl⟩

theorem execute_append {xs ys : List BoundStatement} {mid : Graph} {ns ms : List Nat}
    (hx : g.execute now xs = .ok (mid, ns)) (hy : mid.execute now ys = .ok (h, ms)) :
    g.execute now (xs ++ ys) = .ok (h, ns ++ ms) := by
  induction xs generalizing g ns with
  | nil =>
    cases hx
    exact hy
  | cons b rest ih =>
    obtain ⟨hc, next, n, others, ha, hr, rfl⟩ := execute_cons_eq_ok_iff.1 hx
    exact execute_cons_eq_ok_iff.2 ⟨hc, _, _, _, ha, ih hr, rfl⟩

end Graph

namespace Load

variable {g h : Graph} {now : Int} {s : NodeSchema} {base params : Parameters} {tag : Int}
  {records : List Record} {config : LoaderConfig}

/-- The records of a load that have an identity. -/
def kept (s : NodeSchema) (records : List Record) (params : Parameters) : List Record :=
  records.filter fun r => (s.properties.id.resolve r params).isSome

theorem contains_baseParameters : (baseParameters params tag).contains Names.batch = true := by
  rw [baseParameters, SortedMap.contains_insert]
  simp

/-- What has a value keeps one when the tag and a batch are bound. -/
theorem isSome_resolve_withBatch {ref : PropertyRef} {record : Record}
    (hr : (ref.resolve record params).isSome = true) :
    (ref.resolve record ((baseParameters params tag).withBatch records)).isSome = true := by
  obtain ⟨name, source, _, _, _⟩ := ref
  cases source with
  | recordField => exact hr
  | batchParameter =>
    simp only [PropertyRef.resolve, PropertyRef.find?, Parameters.withBatch, baseParameters,
      SortedMap.find?_insert] at hr ⊢
    by_cases hb : name = Names.batch
    · simp [hb, Json.present]
    · by_cases ht : name = Names.loadTag
      · have hne : Names.loadTag ≠ Names.batch := by decide
        simp [ht, hne, Json.present, Json.int]
      · simpa [hb, ht] using hr

theorem bindBatch_eq (statements : List Statement) (base : Parameters) (records : List Record) :
    bindBatch statements base records = statements.map fun st => ⟨st, base.withBatch records⟩ :=
  rfl

/-- A batch of records with identities is loaded, once the base parameters are bound. -/
theorem execute_bindBatch (now : Int) (g : Graph) (hb : base.contains Names.batch = true)
    (hid : ∀ r ∈ records, (s.properties.id.resolve r (base.withBatch records)).isSome = true)
    (hcheck : ∀ st ∈ s.loadStatements, BoundStatement.check ⟨st, base⟩ = .ok ()) :
    g.execute now (bindBatch s.loadStatements base records) =
      .ok (g.loadBatch now s (base.withBatch records) records, records.length ::
        (g.putNodes now s (base.withBatch records) records).rowCounts s
          (base.withBatch records) records) :=
  Graph.execute_batch now g Parameters.records_withBatch hid
    fun st hst => (BoundStatement.check_withBatch hb).trans (hcheck st hst)

/-- Batches one after the other. -/
def batches (now : Int) (s : NodeSchema) (base : Parameters) (g : Graph)
    (cs : List (List Record)) : Graph :=
  cs.foldl (fun g c => g.loadBatch now s (base.withBatch c) c) g

/-- How many edge rows all the batches write. -/
def edgeCount (now : Int) (s : NodeSchema) (base : Parameters) : Graph → List (List Record) → Nat
  | _, [] => 0
  | g, c :: cs =>
    total ((g.putNodes now s (base.withBatch c) c).rowCounts s (base.withBatch c) c) +
      edgeCount now s base (g.loadBatch now s (base.withBatch c) c) cs

theorem filter_isEdgeWrite_zip (es : List EdgeSchema) (ns : List Nat) (n : Nat)
    (hlen : es.length = ns.length) :
    (((Statement.upsertNodes s.upsert :: es.map fun e => .upsertEdges (s.edgeUpsert e)).zip
      (n :: ns)).filter fun d => isEdgeWrite d.1).map (·.2) = ns := by
  have hall : ∀ (es : List EdgeSchema) (ns : List Nat), es.length = ns.length →
      (((es.map fun e => Statement.upsertEdges (s.edgeUpsert e)).zip ns).filter
        fun d => isEdgeWrite d.1).map (·.2) = ns := by
    intro es
    induction es with
    | nil =>
      intro ns hlen
      rw [List.length_eq_zero_iff.1 hlen.symm]
      rfl
    | cons e es ih =>
      intro ns hlen
      cases ns with
      | nil => simp at hlen
      | cons n ns => simpa [isEdgeWrite] using ih ns (by simpa using hlen)
  simpa [isEdgeWrite] using hall es ns hlen

/-- All the batches of a load in one transaction, and the edge rows among what is counted. -/
theorem execute_batches (now : Int) (g : Graph) {cs : List (List Record)}
    (hb : base.contains Names.batch = true)
    (hid : ∀ c ∈ cs, ∀ r ∈ c,
      (s.properties.id.resolve r (base.withBatch c)).isSome = true)
    (hcheck : ∀ st ∈ s.loadStatements, BoundStatement.check ⟨st, base⟩ = .ok ()) :
    ∃ affected, g.execute now (cs.flatMap (bindBatch s.loadStatements base)) =
        .ok (batches now s base g cs, affected) ∧
      total (((((cs.flatMap (bindBatch s.loadStatements base)).map (·.statement)).zip
        affected).filter fun d => isEdgeWrite d.1).map (·.2)) = edgeCount now s base g cs := by
  induction cs generalizing g with
  | nil => exact ⟨[], rfl, rfl⟩
  | cons c cs ih =>
    obtain ⟨hfirst, hrest⟩ := List.forall_mem_cons.1 hid
    have hrun := execute_bindBatch now g hb hfirst hcheck
    obtain ⟨affected, hothers, hcount⟩ :=
      ih (g := g.loadBatch now s (base.withBatch c) c) hrest
    refine ⟨_, Graph.execute_append hrun hothers, ?_⟩
    have hmap : (bindBatch s.loadStatements base c).map (·.statement) = s.loadStatements := by
      rw [bindBatch, List.map_map]
      exact List.map_id _
    have hsum : ∀ ns ms : List Nat, total (ns ++ ms) = total ns + total ms :=
      fun _ _ => List.sum_append
    rw [List.flatMap_cons, List.map_append, hmap, List.zip_append, List.filter_append,
      List.map_append, hsum, hcount, edgeCount, NodeSchema.loadStatements_eq,
      filter_isEdgeWrite_zip]
    · simp [Graph.rowCounts]
    · simp [NodeSchema.loadStatements_eq, Graph.rowCounts]

theorem forM_check_eq_ok_iff {statements : List Statement} :
    (statements.forM fun st => BoundStatement.check ⟨st, base⟩) = .ok () ↔
      ∀ st ∈ statements, BoundStatement.check ⟨st, base⟩ = .ok () := by
  induction statements with
  | nil => simp [List.forM, pure, Except.pure]
  | cons st rest ih =>
    rw [List.forM, bind_eq_ok_iff, List.forall_mem_cons, ← ih]
    constructor
    · rintro ⟨_, hst, hrest⟩
      exact ⟨hst, hrest⟩
    · rintro ⟨hst, hrest⟩
      exact ⟨(), hst, hrest⟩

/-- A load can run once every parameter that it reads has a value. -/
theorem forall_check_iff : (∀ st ∈ s.loadStatements,
      BoundStatement.check ⟨st, baseParameters params tag⟩ = .ok ()) ↔
    ∀ r ∈ s.references, r.source = .batchParameter →
      (baseParameters params tag).contains r.name = true := by
  simp only [BoundStatement.check_eq_ok_iff]
  constructor
  · intro h r hr hsource
    obtain ⟨st, hst, hname⟩ := NodeSchema.mem_parameters_load.2
      (.inr ⟨r, hr, PropertyRef.mem_batchNames.2 ⟨hsource, rfl⟩⟩)
    exact h st hst r.name hname
  · intro h st hst name hname
    rcases NodeSchema.mem_parameters_load.1 ⟨st, hst, hname⟩ with rfl | ⟨r, hr, hbatch⟩
    · exact contains_baseParameters
    · obtain ⟨hsource, rfl⟩ := PropertyRef.mem_batchNames.1 hbatch
      exact h r hr hsource

theorem isSome_resolve_of_mem_chunks {size : Nat} {c : List Record} {r : Record}
    (hid : ∀ r ∈ records, (s.properties.id.resolve r params).isSome = true)
    (hc : c ∈ chunks size records) (hr : r ∈ c) :
    (s.properties.id.resolve r ((baseParameters params tag).withBatch c)).isSome = true := by
  have hmem : r ∈ (chunks size records).flatten := List.mem_flatten_of_mem hc hr
  rw [flatten_chunks] at hmem
  exact isSome_resolve_withBatch (hid r hmem)

theorem isSome_resolve_of_mem_kept {r : Record} (hr : r ∈ kept s records params) :
    (s.properties.id.resolve r params).isSome = true := (List.mem_filter.1 hr).2

theorem isSome_resolve_of_mem_chunks_kept {size : Nat} {c : List Record} {r : Record}
    (hc : c ∈ chunks size (kept s records params)) (hr : r ∈ c) :
    (s.properties.id.resolve r ((baseParameters params tag).withBatch c)).isSome = true :=
  isSome_resolve_of_mem_chunks (fun _ hr => isSome_resolve_of_mem_kept hr) hc hr

/-- Statements whose parameters are bound run for all the batches in one transaction; no records are
no batches. -/
theorem runBatches_of_execute {config : LoaderConfig} {now : Int} {g h : Graph}
    {statements : List Statement} {affected : List Nat}
    (hcheck : ∀ st ∈ statements, BoundStatement.check ⟨st, baseParameters params tag⟩ = .ok ())
    (hrun : g.execute now ((chunks config.batchSize records).flatMap
      (bindBatch statements (baseParameters params tag))) = .ok (h, affected)) :
    runBatches config now statements records params tag g =
      (.ok ((((chunks config.batchSize records).flatMap
          (bindBatch statements (baseParameters params tag))).map (·.statement)).zip affected),
        h) := by
  have hchecked : GraphM.ofExcept id (statements.forM fun st =>
      BoundStatement.check ⟨st, baseParameters params tag⟩) g = (.ok (), g) := by
    rw [forM_check_eq_ok_iff.2 hcheck]
    rfl
  simp only [runBatches]
  rw [GraphM.bind_of_ok hchecked]
  cases records with
  | nil =>
    rw [chunks] at hrun ⊢
    cases hrun
    rfl
  | cons r rest =>
    simp only [List.isEmpty_cons, Bool.false_eq_true, if_false]
    rw [GraphM.bind_of_ok (GraphM.transact_eq_ok_iff.2 hrun)]
    rfl

/-- Batches run in one transaction, once their parameters are bound and every record has an
identity. -/
theorem runBatches_eq (config : LoaderConfig) (now : Int) (g : Graph)
    (hid : ∀ r ∈ records, (s.properties.id.resolve r params).isSome = true)
    (hcheck : ∀ st ∈ s.loadStatements,
      BoundStatement.check ⟨st, baseParameters params tag⟩ = .ok ()) :
    ∃ done, runBatches config now s.loadStatements records params tag g =
        (.ok done, batches now s (baseParameters params tag) g
          (chunks config.batchSize records)) ∧
      total ((done.filter fun d => isEdgeWrite d.1).map (·.2)) =
        edgeCount now s (baseParameters params tag) g (chunks config.batchSize records) := by
  obtain ⟨affected, hrun, hcount⟩ := execute_batches now g
    contains_baseParameters (fun c hc x hx => isSome_resolve_of_mem_chunks hid hc hx) hcheck
  exact ⟨_, runBatches_of_execute hcheck hrun, hcount⟩

/-- A load creates its indexes and runs its batches, unless a parameter has no value. -/
theorem nodes_eq : Load.nodes config now s records params tag g =
    match s.loadStatements.forM fun st =>
        BoundStatement.check ⟨st, baseParameters params tag⟩ with
    | .error e => (.error e, indexed s g)
    | .ok _ =>
      (.ok ⟨records.length, records.length - (kept s records params).length,
          (kept s records params).length, edgeCount now s (baseParameters params tag) (indexed s g)
            (chunks config.batchSize (kept s records params))⟩,
        batches now s (baseParameters params tag) (indexed s g)
          (chunks config.batchSize (kept s records params))) := by
  simp only [Load.nodes]
  rw [GraphM.bind_of_ok ensureIndexes_eq]
  cases hcheck : s.loadStatements.forM fun st =>
      BoundStatement.check ⟨st, baseParameters params tag⟩ with
  | error e =>
    rw [GraphM.bind_of_error (e := e) (h := indexed s g)]
    simp only [runBatches, hcheck]
    exact GraphM.bind_of_error rfl
  | ok _ =>
    obtain ⟨done, hdone, hcount⟩ := runBatches_eq config now (indexed s g)
      (fun r (hr : r ∈ kept s records params) => isSome_resolve_of_mem_kept hr)
      (forM_check_eq_ok_iff.1 hcheck)
    have hkept : (records.filter fun r => (s.properties.id.resolve r params).isSome) =
        kept s records params := rfl
    rw [hkept, GraphM.bind_of_ok hdone, hcount]
    rfl

theorem nodes_of_check (config : LoaderConfig) (now : Int) (records : List Record) (g : Graph)
    (hcheck : ∀ st ∈ s.loadStatements,
    BoundStatement.check ⟨st, baseParameters params tag⟩ = .ok ()) :
    ∃ summary h, Load.nodes config now s records params tag g = (.ok summary, h) := by
  rw [nodes_eq, forM_check_eq_ok_iff.2 hcheck]
  exact ⟨_, _, rfl⟩

/-- A load that succeeds had its parameters bound, and ran its batches. -/
theorem batches_of_nodes {summary : LoadSummary}
    (hl : Load.nodes config now s records params tag g = (.ok summary, h)) :
    (∀ st ∈ s.loadStatements, BoundStatement.check ⟨st, baseParameters params tag⟩ = .ok ()) ∧
      h = batches now s (baseParameters params tag) (indexed s g)
        (chunks config.batchSize (kept s records params)) := by
  rw [nodes_eq] at hl
  split at hl
  · cases hl
  · next hcheck =>
    cases hl
    exact ⟨forM_check_eq_ok_iff.1 hcheck, rfl⟩

theorem loaded_of_nodes {summary : LoadSummary}
    (hl : Load.nodes config now s records params tag g = (.ok summary, h)) :
    summary.loaded = (kept s records params).length := by
  rw [nodes_eq] at hl
  split at hl
  · cases hl
  · cases hl
    rfl

end Load

end GraphSync
