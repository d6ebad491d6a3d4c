import GraphSync.Proofs.Graph.WellFormed
import GraphSync.Proofs.Load.Batches

/-! Which nodes a load writes, that it marks them with its tag, and that it leaves the others. -/
namespace GraphSync

theorem NodeSchema.label_not_mem_extraLabels (s : NodeSchema) : s.label ∉ s.extraLabels :=
  (List.nodup_cons.1 s.valid.distinct).1

namespace Graph

variable (now : Int)

/-- The nodes that records pick by identity as they are written one by one, new ones included. -/
def pickNodes (u : NodeUpsert) (params : Parameters) : Graph → List Record → List Nat
  | _, [] => []
  | g, r :: rest =>
    match u.properties.id.resolve r params, writeNode now u params g r with
    | some id, .ok h => (g.locateNode now u.label id).2 :: pickNodes u params h rest
    | _, _ => []

/-- The nodes that records find again by identity for their edges. -/
def findNodes (g : Graph) (u : EdgeUpsert) (params : Parameters) (records : List Record) :
    List Nat :=
  records.filterMap fun r => (u.nodeId.resolve r params).bind (g.findNode u.nodeLabel)

/-- The nodes that a statement picks by identity for the records of its batch. -/
def picks (g : Graph) (b : BoundStatement) : List Nat :=
  match b.statement, b.parameters.records with
  | .upsertNodes u, .ok records => g.pickNodes now u b.parameters records
  | .upsertEdges u, .ok records => g.findNodes u b.parameters records
  | _, _ => []

/-- The nodes that statements pick, one after the other. -/
def picked : Graph → List BoundStatement → List Nat
  | _, [] => []
  | g, b :: rest =>
    g.picks now b ++
      match g.apply now b.statement b.parameters with
      | .ok (h, _) => picked h rest
      | .error _ => []

end Graph

/-- The nodes that a load writes: those that a record with an identity picks, to be written or to
be found again for its edges. -/
def Load.written (config : LoaderConfig) (now : Int) (s : NodeSchema) (records : List Record)
    (params : Parameters) (tag : Int) (g : Graph) : List Nat :=
  (Load.ensureIndexes now s g).2.picked now
    ((Load.chunks config.batchSize (Load.kept s records params)).flatMap
      (Load.bindBatch s.loadStatements (Load.baseParameters params tag)))

namespace Graph

variable {now : Int} {g h : Graph} {u : NodeUpsert} {params : Parameters} {record : Record}
  {id : Json} {records : List Record} {key : Nat} {label : String}

theorem locateNode_of_found (hf : g.findNode label id = some key) :
    (g.locateNode now label id).2 = key := by
  simp only [locateNode, hf]

theorem locateNode_of_absent (hf : g.findNode label id = none) :
    (g.locateNode now label id).2 = g.lastKey + 1 := by
  simp only [locateNode, hf]

/-- A record is written to the node it picks, one that was there or a new one, and to no other. -/
theorem find?_putNode (now : Int) (g : Graph)
    (hid : u.properties.id.resolve record params = some id) :
    ∃ n, (n = u.created now id ∨ ∃ key, g.nodes.find? key = some n) ∧
      n.hasLabel u.label = true ∧ ∀ key, (putNode now u params g record).nodes.find? key =
        if key = (g.locateNode now u.label id).2 then some (u.update params record n)
        else g.nodes.find? key := by
  cases hf : g.findNode u.label id with
  | none =>
    rw [putNode_of_absent hid hf, locateNode_of_absent hf]
    refine ⟨u.created now id, .inl rfl, ?_, fun key => find?_nodes_addNode⟩
    rw [NodeUpsert.hasLabel_created]
    simp
  | some key =>
    obtain ⟨n, hn, hl, -⟩ := findNode_eq_some_iff.1 hf
    rw [putNode_of_found hid hf hn, locateNode_of_found hf]
    exact ⟨n, .inr ⟨key, hn⟩, hl, fun key => find?_nodes_setNode⟩

theorem pickNodes_cons {rest : List Record}
    (hid : u.properties.id.resolve record params = some id) :
    g.pickNodes now u params (record :: rest) = (g.locateNode now u.label id).2 ::
      (putNode now u params g record).pickNodes now u params rest := by
  simp only [pickNodes, hid, writeNode_eq_putNode hid]

theorem find?_of_not_mem_pickNodes
    (hid : ∀ r ∈ records, (u.properties.id.resolve r params).isSome = true)
    (hk : key ∉ g.pickNodes now u params records) :
    (records.foldl (putNode now u params) g).nodes.find? key = g.nodes.find? key := by
  induction records generalizing g with
  | nil => rfl
  | cons r rest ih =>
    obtain ⟨hr, hrest⟩ := List.forall_mem_cons.1 hid
    obtain ⟨id, hr⟩ := Option.isSome_iff_exists.1 hr
    rw [pickNodes_cons hr, List.mem_cons, not_or] at hk
    obtain ⟨n, -, -, hn⟩ := find?_putNode now g hr
    exact (ih hrest hk.2).trans ((hn key).trans (if_neg hk.1))

/-- The node that an identity picks stays the one that it finds. -/
theorem findNode_putNode (hg : g.WellFormed) (hlabel : u.label ∉ u.extraLabels)
    (hf : g.findNode u.label id = some key) :
    (putNode now u params g record).findNode u.label id = some key := by
  obtain ⟨n, hn, hl, hi, hleast⟩ := findNode_eq_some_iff.1 hf
  cases hid : u.properties.id.resolve record params with
  | none => rwa [putNode, hid]
  | some other =>
    cases hfo : g.findNode u.label other with
    | none =>
      rw [putNode_of_absent hid hfo]
      have hle := hg.node_le hn
      refine findNode_eq_some_iff.2 ⟨n, ?_, hl, hi, fun k m hk hm => hleast k m hk ?_⟩
      · rw [find?_nodes_addNode, if_neg (by omega), hn]
      · rwa [find?_nodes_addNode, if_neg (by omega)] at hm
    | some place =>
      obtain ⟨o, ho, -⟩ := findNode_eq_some_iff.1 hfo
      rw [putNode_of_found hid hfo ho]
      have hkeep : ∀ x : Node, (u.update params record x).hasLabel u.label = x.hasLabel u.label :=
        fun x => by rw [NodeUpsert.hasLabel_update, decide_eq_false hlabel, Bool.or_false]
      refine findNode_eq_some_iff.2 ?_
      by_cases hp : key = place
      · subst hp
        cases hn.symm.trans ho
        refine ⟨u.update params record n, by rw [find?_nodes_setNode, if_pos rfl],
          (hkeep n).trans hl, NodeUpsert.identifiedBy_update.trans hi, fun k m hk hm => ?_⟩
        rw [find?_nodes_setNode, if_neg (Nat.ne_of_lt hk)] at hm
        exact hleast k m hk hm
      · refine ⟨n, by rw [find?_nodes_setNode, if_neg hp, hn], hl, hi, fun k m hk hm => ?_⟩
        rw [find?_nodes_setNode] at hm
        intro hlm
        split at hm
        · cases hm
          rw [NodeUpsert.identifiedBy_update]
          exact hleast k o hk (by rwa [‹k = place›]) ((hkeep o).symm.trans hlm)
        · exact hleast k m hk hm hlm

theorem WellFormed.putNode (hg : g.WellFormed) : (putNode now u params g record).WellFormed := by
  cases hid : u.properties.id.resolve record params with
  | none => rwa [Graph.putNode, hid]
  | some id => exact hg.step (step_of_writeNode (writeNode_eq_putNode hid))

theorem findNode_foldl_putNode (hg : g.WellFormed) (hlabel : u.label ∉ u.extraLabels)
    (hf : g.findNode u.label id = some key) :
    (records.foldl (putNode now u params) g).findNode u.label id = some key := by
  induction records generalizing g with
  | nil => exact hf
  | cons r rest ih => exact ih hg.putNode (findNode_putNode hg hlabel hf)

/-- What an identity finds after the nodes of a batch are written is one that a record picked. -/
theorem mem_pickNodes_of_findNode (hg : g.WellFormed) (hlabel : u.label ∉ u.extraLabels)
    (hid : ∀ r ∈ records, (u.properties.id.resolve r params).isSome = true)
    (hr : record ∈ records) (hrid : u.properties.id.resolve record params = some id)
    (hf : (records.foldl (putNode now u params) g).findNode u.label id = some key) :
    key ∈ g.pickNodes now u params records := by
  induction records generalizing g with
  | nil => cases hr
  | cons r rest ih =>
    obtain ⟨hfirst, hrest⟩ := List.forall_mem_cons.1 hid
    obtain ⟨own, hown⟩ := Option.isSome_iff_exists.1 hfirst
    rw [pickNodes_cons hown]
    rcases List.mem_cons.1 hr with rfl | hr
    · cases hown.symm.trans hrid
      refine Decidable.byContradiction fun hk => ?_
      rw [List.mem_cons, not_or] at hk
      cases hfg : g.findNode u.label id with
      | some place =>
        have hkept : ((record :: rest).foldl (putNode now u params) g).findNode u.label id =
            some place := findNode_foldl_putNode hg hlabel hfg
        cases hkept.symm.trans hf
        exact hk.1 (locateNode_of_found hfg).symm
      | none =>
        -- the node found was there before, and then the record would have picked it
        obtain ⟨n, hn, hl, hi, -⟩ := findNode_eq_some_iff.1 hf
        obtain ⟨m, -, -, hm⟩ := find?_putNode now g hrid
        have hback := find?_of_not_mem_pickNodes hrest hk.2
        rw [hm, if_neg hk.1] at hback
        have hfalse := findNode_eq_none_iff.1 hfg key n (hback.symm.trans hn) hl
        exact Bool.false_ne_true (hfalse.symm.trans hi)
    · exact List.mem_cons_of_mem _ (ih hg.putNode hrest hr hf)

/-- Writing nodes gives none of them a label that is not one of theirs. -/
theorem LabelsApart.putNode (ha : g.LabelsApart u.label label)
    (hl : label ∉ u.label :: u.extraLabels) :
    (putNode now u params g record).LabelsApart u.label label := by
  cases hid : u.properties.id.resolve record params with
  | none => rwa [Graph.putNode, hid]
  | some id =>
    rw [List.mem_cons, not_or] at hl
    obtain ⟨hne, hextra⟩ := hl
    obtain ⟨n, horigin, hown, hput⟩ := find?_putNode now g hid
    intro key m hm hlm
    rw [hput] at hm
    split at hm
    · cases hm
      rw [NodeUpsert.hasLabel_update, decide_eq_false hextra, Bool.or_false]
      rcases horigin with rfl | ⟨k, hk⟩
      · rw [NodeUpsert.hasLabel_created, decide_eq_false hne]
      · exact ha k n hk hown
    · exact ha key m hm hlm

theorem mem_findNodes {v : EdgeUpsert} : key ∈ g.findNodes v params records ↔
    ∃ r ∈ records, ∃ id, v.nodeId.resolve r params = some id ∧
      g.findNode v.nodeLabel id = some key := by
  simp only [findNodes, List.mem_filterMap, Option.bind_eq_some_iff]

/-- What statements are seen to do one after the other is cut where their run is cut. -/
theorem append_of_trace (here : Graph → BoundStatement → List Nat)
    {trace : Graph → List BoundStatement → List Nat} {xs ys : List BoundStatement} {ns : List Nat}
    (hnil : ∀ g, trace g [] = [])
    (hcons : ∀ {g b rest h n}, g.apply now b.statement b.parameters = .ok (h, n) →
      trace g (b :: rest) = here g b ++ trace h rest)
    (hx : g.execute now xs = .ok (h, ns)) : trace g (xs ++ ys) = trace g xs ++ trace h ys := by
  induction xs generalizing g ns with
  | nil =>
    cases hx
    rw [hnil, List.nil_append, List.nil_append]
  | cons b rest ih =>
    obtain ⟨-, mid, n, others, ha, hr, -⟩ := execute_cons_eq_ok_iff.1 hx
    rw [List.cons_append, hcons ha, hcons ha, ih hr, List.append_assoc]

theorem picked_append {xs ys : List BoundStatement} {ns : List Nat}
    (hx : g.execute now xs = .ok (h, ns)) :
    g.picked now (xs ++ ys) = g.picked now xs ++ h.picked now ys :=
  append_of_trace (picks now) (fun _ => rfl) (fun ha => by simp only [picked, ha]) hx

variable {s : NodeSchema}

theorem mem_picked_upsertEdges {es : List EdgeSchema} (hn : h.nodes = g.nodes)
    (hrecords : params.records = .ok records)
    (hk : key ∈ h.picked now (es.map fun e => ⟨.upsertEdges (s.edgeUpsert e), params⟩)) :
    ∃ r ∈ records, ∃ id, s.properties.id.resolve r params = some id ∧
      g.findNode s.label id = some key := by
  induction es generalizing h with
  | nil => cases hk
  | cons e es ih =>
    have hfind : h.findNode s.label = g.findNode s.label := by
      funext id
      rw [findNode, findNode, labelled_congr hn]
    simp only [List.map_cons, picked, picks, hrecords, apply_upsertEdges hn hrecords,
      List.mem_append] at hk
    rcases hk with hk | hk
    · exact hfind ▸ mem_findNodes.1 hk
    · exact ih (nodes_writeEdges.trans hn) hk

/-- The edges of a batch pick no other nodes than its records do. -/
theorem mem_picked_batch (hg : g.WellFormed) (hrecords : params.records = .ok records)
    (hid : ∀ r ∈ records, (s.properties.id.resolve r params).isSome = true) :
    key ∈ g.picked now (s.loadStatements.map fun st => ⟨st, params⟩) ↔
      key ∈ g.pickNodes now s.upsert params records := by
  have hlabel : s.label ∉ s.extraLabels := s.label_not_mem_extraLabels
  rw [NodeSchema.loadStatements_eq, List.map_cons, List.map_map]
  simp only [picked, picks, hrecords, apply_upsertNodes hrecords hid, List.mem_append]
  refine ⟨?_, .inl⟩
  rintro (hk | hk)
  · exact hk
  · obtain ⟨r, hr, id, hrid, hf⟩ := mem_picked_upsertEdges rfl hrecords hk
    exact mem_pickNodes_of_findNode hg hlabel hid hr hrid hf

end Graph

namespace NodeSchema

/-- The mark of a node is the tag of the load that writes it. -/
def MarksLoad (s : NodeSchema) : Prop :=
  ∃ r, s.properties.mapping.ref? Names.mark = some r ∧ r.source = .batchParameter ∧
    r.name = Names.loadTag

/-- The labels that a node of the schema is given. -/
def labels (s : NodeSchema) : List String := s.label :: s.extraLabels

variable {s : NodeSchema} {params : Parameters} {records : List Record} {record : Record}
  {tag : Int} {n : Node}

theorem get?_mark_update (hs : s.MarksLoad) :
    (s.upsert.update ((Load.baseParameters params tag).withBatch records) record n).get?
      Names.mark = some (.int tag) := by
  obtain ⟨r, hr, hsource, hname⟩ := hs
  have hmark : s.upsert.properties.mapping.ref? Names.mark = some r := hr
  rw [NodeUpsert.get?_update, if_neg (by decide), hmark]
  simp only [PropertyRef.resolve, PropertyRef.find?, hsource, hname, Parameters.withBatch,
    Load.baseParameters, SortedMap.find?_insert]
  simp [show Names.loadTag ≠ Names.batch by decide, Json.present, Json.int]

end NodeSchema

namespace Load

variable {s : NodeSchema} {tag : Int} {g h i : Graph} {keys more : List Nat} {now : Int}
  {params : Parameters} {records : List Record} {config : LoaderConfig}

/-- Between two graphs the nodes of some keys are written and marked, and the others are left. -/
structure Marks (s : NodeSchema) (tag : Int) (g h : Graph) (keys : List Nat) : Prop where
  frame : ∀ key, key ∉ keys → h.nodes.find? key = g.nodes.find? key
  marked : ∀ key ∈ keys, ∃ n, h.nodes.find? key = some n ∧ n.hasLabel s.label = true ∧
    n.get? Names.mark = some (.int tag)

theorem Marks.of_nodes_eq (hn : h.nodes = g.nodes) : Marks s tag g h [] :=
  ⟨fun _ _ => by rw [hn], fun _ hk => by cases hk⟩

theorem Marks.trans (hg : Marks s tag g h keys) (hh : Marks s tag h i more) :
    Marks s tag g i (keys ++ more) := by
  refine ⟨fun key hk => ?_, fun key hk => ?_⟩
  · rw [List.mem_append, not_or] at hk
    exact (hh.frame key hk.2).trans (hg.frame key hk.1)
  · by_cases hm : key ∈ more
    · exact hh.marked key hm
    · rw [hh.frame key hm]
      exact hg.marked key ((List.mem_append.1 hk).resolve_right hm)

theorem Marks.congr (hg : Marks s tag g h keys) (hk : ∀ key, key ∈ more ↔ key ∈ keys) :
    Marks s tag g h more :=
  ⟨fun key hm => hg.frame key fun h => hm ((hk key).2 h),
    fun key hm => hg.marked key ((hk key).1 hm)⟩

theorem marks_putNodes {batch : List Record} (hs : s.MarksLoad)
    (hid : ∀ r ∈ records, (s.properties.id.resolve r
      ((baseParameters params tag).withBatch batch)).isSome = true) :
    Marks s tag g (g.putNodes now s ((baseParameters params tag).withBatch batch) records)
      (g.pickNodes now s.upsert ((baseParameters params tag).withBatch batch) records) := by
  induction records generalizing g with
  | nil => exact .of_nodes_eq rfl
  | cons r rest ih =>
    obtain ⟨hr, hrest⟩ := List.forall_mem_cons.1 hid
    obtain ⟨id, hr⟩ := Option.isSome_iff_exists.1 hr
    obtain ⟨n, -, hl, hn⟩ := Graph.find?_putNode (u := s.upsert) now g hr
    rw [Graph.pickNodes_cons (u := s.upsert) hr]
    have hone : Marks s tag g
        (Graph.putNode now s.upsert ((baseParameters params tag).withBatch batch) g r)
        [(g.locateNode now s.upsert.label id).2] := by
      refine ⟨fun key hk => ?_, fun key hk => ?_⟩
      · rw [hn, if_neg (by simpa using hk)]
      · rw [hn, if_pos (by simpa using hk)]
        refine ⟨_, rfl, ?_, NodeSchema.get?_mark_update hs⟩
        rw [NodeUpsert.hasLabel_update]
        exact Bool.or_eq_true_iff.2 (.inl hl)
    exact hone.trans (ih hrest)

/-- A load marks what it writes and leaves every other node alone. -/
theorem marks_batches (now : Int) {cs : List (List Record)} (hs : s.MarksLoad) (hg : g.WellFormed)
    (hid : ∀ c ∈ cs, ∀ r ∈ c,
      (s.properties.id.resolve r ((baseParameters params tag).withBatch c)).isSome = true)
    (hcheck : ∀ st ∈ s.loadStatements,
      BoundStatement.check ⟨st, baseParameters params tag⟩ = .ok ()) :
    Marks s tag g (batches now s (baseParameters params tag) g cs)
      (g.picked now (cs.flatMap (bindBatch s.loadStatements (baseParameters params tag)))) := by
  induction cs generalizing g with
  | nil => exact .of_nodes_eq rfl
  | cons c cs ih =>
    obtain ⟨hfirst, hrest⟩ := List.forall_mem_cons.1 hid
    have hrecords : ((baseParameters params tag).withBatch c).records = .ok c :=
      Parameters.records_withBatch
    have hrun := execute_bindBatch now g contains_baseParameters hfirst hcheck
    have hbatch : Marks s tag g (g.loadBatch now s ((baseParameters params tag).withBatch c) c)
        (g.picked now (s.loadStatements.map
          fun st => ⟨st, (baseParameters params tag).withBatch c⟩)) := by
      refine Marks.congr ?_ fun key => Graph.mem_picked_batch hg hrecords hfirst
      have hnodes : Marks s tag g
          (g.putNodes now s ((baseParameters params tag).withBatch c) c)
          (g.pickNodes now s.upsert ((baseParameters params tag).withBatch c) c) :=
        marks_putNodes hs hfirst
      rw [← List.append_nil (Graph.pickNodes ..)]
      exact hnodes.trans (.of_nodes_eq Graph.nodes_putEdges)
    rw [List.flatMap_cons, Graph.picked_append hrun]
    exact hbatch.trans (ih (hg.steps (Graph.steps_of_execute hrun)) hrest)

theorem wellFormed_indexed (hg : g.WellFormed) : (indexed s g).WellFormed :=
  hg.setIndexes _

theorem marks_of_nodes {summary : LoadSummary} (hs : s.MarksLoad) (hg : g.WellFormed)
    (hl : Load.nodes config now s records params tag g = (.ok summary, h)) :
    Marks s tag g h (written config now s records params tag g) := by
  obtain ⟨hcheck, rfl⟩ := batches_of_nodes hl
  have hid : ∀ c ∈ chunks config.batchSize (kept s records params), ∀ r ∈ c,
      (s.properties.id.resolve r ((baseParameters params tag).withBatch c)).isSome = true :=
    fun _ hc _ hr => isSome_resolve_of_mem_chunks_kept hc hr
  have hrun := marks_batches now hs (wellFormed_indexed (s := s) hg) hid hcheck
  rw [written, ensureIndexes_eq]
  have hsame : Marks s tag g (indexed s g) [] := .of_nodes_eq rfl
  exact hsame.trans hrun

theorem labelsApart_batches {base : Parameters} {label : String} {cs : List (List Record)}
    (ha : g.LabelsApart s.label label) (hl : label ∉ s.labels) :
    (batches now s base g cs).LabelsApart s.label label := by
  have hnodes : ∀ (records : List Record) (params : Parameters) (g : Graph),
      g.LabelsApart s.label label →
        (g.putNodes now s params records).LabelsApart s.label label := by
    intro records params
    induction records with
    | nil => exact fun _ ha => ha
    | cons r rest ih => exact fun g ha => ih _ (ha.putNode (u := s.upsert) hl)
  induction cs generalizing g with
  | nil => exact ha
  | cons c cs ih =>
    refine ih fun key n hn => hnodes c (base.withBatch c) g ha key n ?_
    exact Graph.nodes_loadBatch (g := g) ▸ hn

theorem labelsApart_of_nodes {summary : LoadSummary} {label : String}
    (hl : Load.nodes config now s records params tag g = (.ok summary, h))
    (ha : g.LabelsApart s.label label) (hlabel : label ∉ s.labels) :
    h.LabelsApart s.label label := by
  obtain ⟨-, rfl⟩ := batches_of_nodes hl
  exact labelsApart_batches (g := indexed s g) ha hlabel

end Load

end GraphSync
