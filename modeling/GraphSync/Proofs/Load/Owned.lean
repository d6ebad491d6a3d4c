import GraphSync.Proofs.Cleanup.Sweep
import GraphSync.Proofs.Load.Again

/-! A load joins every node that it writes to the owners that are there before it, and neither it
nor a later load takes these edges away. -/
namespace GraphSync

namespace Upserting

variable {σ ω α : Type} {S : Upserting σ ω α} {s : σ} {ws : List ω} {w : ω} {key : Nat}

theorem find_foldl (now : Int) (hvalid : S.Valid s) (hfits : ∀ w ∈ ws, S.Fits w)
    (hf : S.find s w = some key) : S.find (ws.foldl (S.put now) s) w = some key := by
  induction ws generalizing s with
  | nil => exact hf
  | cons v ws ih =>
    obtain ⟨hv, hrest⟩ := List.forall_mem_cons.1 hfits
    exact ih (S.valid_put now hvalid hv) hrest (S.stable now hvalid hv hf)

end Upserting

/-- Two bindings give the references that look up an owner the same values. -/
def EdgeSchema.SameOwner (o : EdgeSchema) (params other : Parameters) : Prop :=
  ∀ entry ∈ o.target.matcher.mapping,
    entry.2.resolve .empty params = entry.2.resolve .empty other

namespace Graph

variable {g h : Graph} {now : Int} {s : NodeSchema} {o : EdgeSchema} {params other : Parameters}
  {records : List Record} {record : Record} {key owner place : Nat} {n : Node} {w : EdgeWrite}

/-- A node that the record's identity does not tell, under the label of the loaded ones, is left as
it is. -/
theorem find?_putNode_of_apart {u : NodeUpsert} (hg : g.WellFormed)
    (hn : g.nodes.find? key = some n)
    (ha : n.hasLabel u.label = true → ∀ id, u.properties.id.resolve record params = some id →
      n.identifiedBy id = false) :
    (putNode now u params g record).nodes.find? key = some n := by
  cases hid : u.properties.id.resolve record params with
  | none => rw [putNode, hid, hn]
  | some id =>
    cases hf : g.findNode u.label id with
    | none =>
      rw [putNode_of_absent hid hf, find?_nodes_addNode, if_neg (hg.node_ne_next hn), hn]
    | some place =>
      obtain ⟨m, hm, hlm, him, -⟩ := findNode_eq_some_iff.1 hf
      have hne : key ≠ place := by
        rintro rfl
        cases hn.symm.trans hm
        exact Bool.false_ne_true ((ha hlm id hid).symm.trans him)
      rw [putNode_of_found hid hf hm, find?_nodes_setNode, if_neg hne, hn]

theorem find?_putNodes_of_apart (hg : g.WellFormed) (hn : g.nodes.find? key = some n)
    (ha : n.hasLabel s.label = true → ∀ r ∈ records, ∀ id,
      s.properties.id.resolve r params = some id → n.identifiedBy id = false) :
    (g.putNodes now s params records).nodes.find? key = some n := by
  induction records generalizing g with
  | nil => exact hn
  | cons r rest ih =>
    refine ih hg.putNode (find?_putNode_of_apart (u := s.upsert) hg hn fun hl => ?_) fun hl => ?_
    · exact ha hl r List.mem_cons_self
    · exact fun r hr => ha hl r (List.mem_cons_of_mem _ hr)

/-- A node without the label of the loaded ones is left as it is. -/
theorem find?_putNodes_of_not_hasLabel (hg : g.WellFormed) (hn : g.nodes.find? key = some n)
    (hl : n.hasLabel s.label = false) :
    (g.putNodes now s params records).nodes.find? key = some n :=
  find?_putNodes_of_apart hg hn fun hlabel => absurd hlabel (Bool.eq_false_iff.1 hl)

/-- The node that a record picks is the one that it finds once all records are written. -/
theorem nodeOf_of_mem_pickNodes (hg : g.WellFormed)
    (hid : ∀ r ∈ records, ∃ id, s.properties.id.resolve r params = some id ∧ id.agrees id = true)
    (hk : key ∈ g.pickNodes now s.upsert params records) :
    ∃ r ∈ records, (g.putNodes now s params records).nodeOf s params r = some key := by
  have hlabel : s.label ∉ s.extraLabels := s.label_not_mem_extraLabels
  induction records generalizing g with
  | nil => cases hk
  | cons r rest ih =>
    obtain ⟨⟨id, hr, hself⟩, hrest⟩ := List.forall_mem_cons.1 hid
    have hput : (putNode now s.upsert params g r).WellFormed := hg.putNode
    rw [pickNodes_cons (u := s.upsert) hr] at hk
    rcases List.mem_cons.1 hk with rfl | hk
    · have hfirst : (putNode now s.upsert params g r).findNode s.label id =
          some (g.locateNode now s.label id).2 :=
        findNode_putNode_located (u := s.upsert) hg hlabel hr hself
      have hlast : (rest.foldl (putNode now s.upsert params)
          (putNode now s.upsert params g r)).findNode s.label id =
            some (g.locateNode now s.label id).2 :=
        findNode_foldl_putNode (u := s.upsert) hput hlabel hfirst
      exact ⟨r, List.mem_cons_self, nodeOf_eq_some_iff.2 ⟨id, hr, hlast⟩⟩
    · obtain ⟨r', hr', hfound⟩ := ih hput hrest hk
      exact ⟨r', List.mem_cons_of_mem _ hr', hfound⟩

/-- No property of an owner's matcher is matched element by element. -/
theorem candidates_owner (hv : NodePlan.OwnerValid o) :
    o.target.matcher.candidates record params = [none] := by
  have hnone : o.target.matcher.oneToMany? = none :=
    List.find?_eq_none.2 fun entry hentry => by simp [(hv.exact entry hentry).isOneToMany]
  rw [Matcher.candidates, hnone]

/-- The owner is looked up by parameters alone, so the nodes that an edge to it targets are the
owners that its scope means. -/
theorem mem_matching_iff_isOwner (hv : NodePlan.OwnerValid o) (record : Record) :
    owner ∈ g.matching record params o.target ↔
      g.isOwner params ⟨o.edgeType, o.target⟩ owner = true := by
  have hresolve : ∀ entry ∈ o.target.matcher.mapping,
      entry.2.resolve record params = entry.2.resolve .empty params := by
    intro entry hentry
    simp only [PropertyRef.resolve, PropertyRef.find?, (hv.exact entry hentry).2.2]
  have haccepts : ∀ n, o.target.matcher.accepts record params none n =
      o.target.matcher.accepts .empty params none n := by
    intro n
    rw [Bool.eq_iff_iff, Matcher.accepts, Matcher.accepts, List.all_eq_true, List.all_eq_true]
    exact forall₂_congr fun entry hentry => by rw [hresolve entry hentry]
  rw [mem_matching, isOwner_iff, candidates_owner hv]
  simp only [List.mem_singleton, exists_eq_left, haccepts]

/-- Bindings that give the owner's references the same values mean the same owners. -/
theorem isOwner_congr (hsame : o.SameOwner params other) :
    g.isOwner params ⟨o.edgeType, o.target⟩ key = g.isOwner other ⟨o.edgeType, o.target⟩ key :=
  congrFun (isOwner_of_resolve (s := ⟨o.edgeType, o.target⟩) hsame) key

theorem isOwner_congr_node {scope : Scope} (hn : h.nodes.find? key = g.nodes.find? key) :
    h.isOwner params scope key = g.isOwner params scope key := by
  rw [isOwner, isOwner, hn]

theorem edgeOf_putNodes : (g.putNodes now s params records).edgeOf w = g.edgeOf w := by
  rw [edgeOf, edgeOf, findEdge, findEdge, edges_putNodes]

/-- An edge that is there is found after a batch. -/
theorem edgeOf_loadBatch (hg : g.WellFormed) (hw : g.edgeOf w = some place) :
    (g.loadBatch now s params records).edgeOf w = some place := by
  have hput : (g.putNodes now s params records).WellFormed := hg.putNodes
  rw [loadBatch, putEdges_eq_foldl]
  exact Upserting.find_foldl (S := edgeWrites params (g.putNodes now s params records)) now
    ⟨hput, rfl⟩ (fun w hw => hasEnds_of_mem_batchWrites hw) (edgeOf_putNodes.trans hw)

/-- Every row of a batch finds its edge after the batch. -/
theorem exists_edgeOf_loadBatch (hg : g.WellFormed)
    (hw : w ∈ (g.putNodes now s params records).batchWrites s params records) :
    ∃ place, (g.loadBatch now s params records).edgeOf w = some place := by
  have hput : (g.putNodes now s params records).WellFormed := hg.putNodes
  rw [loadBatch, putEdges_eq_foldl]
  exact (Upserting.absorbs_foldl (S := edgeWrites params (g.putNodes now s params records)) now
    ⟨hput, rfl⟩ fun w hw => hasEnds_of_mem_batchWrites hw).found w hw

/-- A node that a batch picks is joined to an owner that is there. -/
theorem exists_owner_edge_loadBatch (hg : g.WellFormed) (ho : o ∈ s.allEdges)
    (hv : NodePlan.OwnerValid o)
    (hid : ∀ r ∈ records, ∃ id, s.properties.id.resolve r params = some id ∧ id.agrees id = true)
    (hn : g.nodes.find? owner = some n) (hl : n.hasLabel s.label = false)
    (howner : g.isOwner params ⟨o.edgeType, o.target⟩ owner = true)
    (hk : key ∈ g.pickNodes now s.upsert params records) :
    ∃ place, (g.loadBatch now s params records).edgeOf ⟨o, .empty, (key, owner)⟩ = some place := by
  obtain ⟨r, hr, hnode⟩ := nodeOf_of_mem_pickNodes hg hid hk
  have hkept : (g.putNodes now s params records).nodes.find? owner = some n :=
    find?_putNodes_of_not_hasLabel hg hn hl
  have hthere : (g.putNodes now s params records).isOwner params ⟨o.edgeType, o.target⟩ owner =
      true := (isOwner_congr_node (hkept.trans hn.symm)).trans howner
  have hrow : (key, owner) ∈
      (g.putNodes now s params records).edgeRows (s.edgeUpsert o) params r :=
    mem_edgeRows_nodeOf.2 ⟨hnode, (mem_matching_iff_isOwner hv r).2 hthere⟩
  have hwrite : ⟨o, r, (key, owner)⟩ ∈
      (g.putNodes now s params records).batchWrites s params records :=
    List.mem_flatMap.2 ⟨o, ho, mem_schemaWrites.2 ⟨rfl, hr, hrow⟩⟩
  obtain ⟨place, hplace⟩ := exists_edgeOf_loadBatch hg hwrite
  exact ⟨place, hplace⟩

/-- The edge that is found for a node and its owner leads from the owner to the node. -/
theorem exists_edge_of_edgeOf (hv : NodePlan.OwnerValid o)
    (hf : g.edgeOf ⟨o, record, (key, owner)⟩ = some place) :
    ∃ e, g.edges.find? place = some e ∧ e.edgeType = o.edgeType ∧ e.start = owner ∧
      e.finish = key := by
  have hends : EdgeWrite.ends ⟨o, record, (key, owner)⟩ = (owner, key) := by
    rw [EdgeWrite.ends, hv.inward]
    rfl
  rw [edgeOf, hends] at hf
  obtain ⟨e, he, hj⟩ := findEdge_eq_some hf
  exact ⟨e, he, Edge.joins_iff.1 hj⟩

end Graph

namespace Load

variable {g h : Graph} {now tag : Int} {s : NodeSchema} {o : EdgeSchema}
  {params base : Parameters} {records : List Record} {config : LoaderConfig}
  {summary : LoadSummary} {cs : List (List Record)} {key owner place : Nat} {n : Node}
  {w : EdgeWrite}

theorem find?_batches_of_not_hasLabel (hg : g.WellFormed) (hn : g.nodes.find? key = some n)
    (hl : n.hasLabel s.label = false) :
    (batches now s base g cs).nodes.find? key = some n := by
  induction cs generalizing g with
  | nil => exact hn
  | cons c cs ih =>
    refine ih hg.loadBatch ?_
    rw [Graph.nodes_loadBatch]
    exact Graph.find?_putNodes_of_not_hasLabel hg hn hl

theorem edgeOf_batches (hg : g.WellFormed) (hw : g.edgeOf w = some place) :
    (batches now s base g cs).edgeOf w = some place := by
  induction cs generalizing g with
  | nil => exact hw
  | cons c cs ih => exact ih hg.loadBatch (Graph.edgeOf_loadBatch hg hw)

/-- Whichever batch picks a node, it is joined to an owner that is there from the start. -/
theorem exists_owner_edge_batches (now : Int) (hg : g.WellFormed) (ho : o ∈ s.allEdges)
    (hv : NodePlan.OwnerValid o)
    (hid : ∀ c ∈ cs, ∀ r ∈ c, ∃ id, s.properties.id.resolve r
      ((baseParameters params tag).withBatch c) = some id ∧ id.agrees id = true)
    (hcheck : ∀ st ∈ s.loadStatements,
      BoundStatement.check ⟨st, baseParameters params tag⟩ = .ok ())
    (hn : g.nodes.find? owner = some n) (hl : n.hasLabel s.label = false)
    (howner : ∀ batch, g.isOwner ((baseParameters params tag).withBatch batch)
      ⟨o.edgeType, o.target⟩ owner = true)
    (hk : key ∈ g.picked now
      (cs.flatMap (bindBatch s.loadStatements (baseParameters params tag)))) :
    ∃ place, (batches now s (baseParameters params tag) g cs).edgeOf
      ⟨o, .empty, (key, owner)⟩ = some place := by
  induction cs generalizing g with
  | nil => cases hk
  | cons c cs ih =>
    obtain ⟨hfirst, hrest⟩ := List.forall_mem_cons.1 hid
    have hrecords : ((baseParameters params tag).withBatch c).records = .ok c :=
      Parameters.records_withBatch
    have hsome : ∀ r ∈ c, (s.properties.id.resolve r
        ((baseParameters params tag).withBatch c)).isSome = true := by
      intro r hr
      obtain ⟨id, hr, -⟩ := hfirst r hr
      rw [hr]
      rfl
    have hrun := execute_bindBatch now g contains_baseParameters hsome hcheck
    have hnext : (g.loadBatch now s ((baseParameters params tag).withBatch c) c).WellFormed :=
      hg.loadBatch
    rw [List.flatMap_cons, Graph.picked_append hrun, List.mem_append] at hk
    rcases hk with hk | hk
    · obtain ⟨place, hplace⟩ := Graph.exists_owner_edge_loadBatch hg ho hv hfirst hn hl (howner c)
        ((Graph.mem_picked_batch hg hrecords hsome).1 hk)
      have hlater : (batches now s (baseParameters params tag)
          (g.loadBatch now s ((baseParameters params tag).withBatch c) c) cs).edgeOf
            ⟨o, .empty, (key, owner)⟩ = some place := edgeOf_batches hnext hplace
      exact ⟨place, hlater⟩
    · have hkept : (g.loadBatch now s ((baseParameters params tag).withBatch c) c).nodes.find?
          owner = some n := by
        rw [Graph.nodes_loadBatch]
        exact Graph.find?_putNodes_of_not_hasLabel hg hn hl
      refine ih hnext hrest hkept (fun batch => ?_) hk
      exact (Graph.isOwner_congr_node (hkept.trans hn.symm)).trans (howner batch)

theorem wellFormed_of_nodes (hg : g.WellFormed)
    (hload : Load.nodes config now s records params tag g = (.ok summary, h)) : h.WellFormed := by
  obtain ⟨-, rfl⟩ := batches_of_nodes hload
  exact wellFormed_batches (wellFormed_indexed hg)

/-- A load leaves nodes without its label as they are. -/
theorem find?_of_nodes (hg : g.WellFormed)
    (hload : Load.nodes config now s records params tag g = (.ok summary, h))
    (hn : g.nodes.find? key = some n) (hl : n.hasLabel s.label = false) :
    h.nodes.find? key = some n := by
  obtain ⟨-, rfl⟩ := batches_of_nodes hload
  exact find?_batches_of_not_hasLabel (wellFormed_indexed hg) hn hl

/-- A load takes no edge away. -/
theorem edgeOf_of_nodes (hg : g.WellFormed)
    (hload : Load.nodes config now s records params tag g = (.ok summary, h))
    (hw : g.edgeOf w = some place) : h.edgeOf w = some place := by
  obtain ⟨-, rfl⟩ := batches_of_nodes hload
  exact edgeOf_batches (wellFormed_indexed hg) hw

/-- A load joins what it writes to every owner that is there before it. -/
theorem exists_owner_edge_of_nodes (hg : g.WellFormed) (ho : o ∈ s.allEdges)
    (hv : NodePlan.OwnerValid o) (hrecords : ∀ r ∈ records, r.InRange)
    (hparams : Record.InRange params) (htag : -Word.signedBound ≤ tag ∧ tag < Word.signedBound)
    (hload : Load.nodes config now s records params tag g = (.ok summary, h))
    (hn : g.nodes.find? owner = some n) (hl : n.hasLabel s.label = false)
    (howner : ∀ batch, g.isOwner ((baseParameters params tag).withBatch batch)
      ⟨o.edgeType, o.target⟩ owner = true)
    (hk : key ∈ written config now s records params tag g) :
    ∃ place, h.edgeOf ⟨o, .empty, (key, owner)⟩ = some place := by
  obtain ⟨hcheck, rfl⟩ := batches_of_nodes hload
  rw [written, ensureIndexes_eq] at hk
  refine exists_owner_edge_batches now (wellFormed_indexed (s := s) hg) ho hv (fun c hc r hr => ?_)
    hcheck hn hl howner hk
  refine exists_id_of_mem_kept hrecords hparams htag ?_
  rw [← flatten_chunks config.batchSize (kept s records params)]
  exact List.mem_flatten_of_mem hc hr

end Load

end GraphSync
