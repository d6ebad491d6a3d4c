import GraphSync.Proofs.Cleanup.Pages
import GraphSync.Proofs.Cycle
import GraphSync.Proofs.Load.Marked
import GraphSync.Proofs.Load.Owned

/-! Nodes that one load wrote and the next did not: which of them a scoped cleanup takes away. -/
namespace GraphSync

namespace Load

variable {s : NodeSchema} {g h : Graph} {config : LoaderConfig} {now tag : Int}
  {params : Parameters} {summary : LoadSummary}

/-- A load of no records writes no node. -/
theorem written_nil : written config now s [] params tag g = [] := by
  simp [written, kept, chunks, Graph.picked]

/-- A load of no records creates the indexes of the schema, and that is all. -/
theorem eq_indexed_of_nodes_nil
    (hload : Load.nodes config now s [] params tag g = (.ok summary, h)) : h = indexed s g := by
  rw [(batches_of_nodes hload).2, kept, List.filter_nil, chunks]
  rfl

end Load

namespace Sample

theorem check_load_before : ∀ st ∈ bucket.loadStatements,
    BoundStatement.check ⟨st, Load.baseParameters params 1⟩ = .ok () :=
  Load.forall_check_iff.2 (by decide)

/-- A load into another project. -/
def elsewhere : Parameters := SortedMap.ofList [("PROJECT_ID", .str "q")]

theorem check_load_elsewhere : ∀ st ∈ bucket.loadStatements,
    BoundStatement.check ⟨st, Load.baseParameters elsewhere 2⟩ = .ok () :=
  Load.forall_check_iff.2 (by decide)

/-- The records that a load keeps are one batch. -/
theorem chunks_records : Load.chunks ({} : LoaderConfig).batchSize
    (Load.kept bucket records params) = [records.take 1] :=
  Load.chunks_of_length_le (by decide) (by decide)

end Sample

namespace NodeSchema

variable {s : NodeSchema} {o : EdgeSchema} {g h i j : Graph} {config other : LoaderConfig}
  {now later last first second : Int} {records others : List Record}
  {params changed : Parameters}
  {common : CommonParameters} {summary again : LoadSummary} {n place key : Nat} {node : Node}
  {e : Edge}

/-- A stale node goes if one of its owners outlasts the cleanup: as long as it is there, the edge
from that owner is there as well, and the sweep goes on until it finds nothing. -/
theorem gone_of_owner_left (ho : s.scopingEdge = some o) (hn : g.nodes.find? key = some node)
    (hl : node.hasLabel s.label = true)
    (hstale : node.properties.isStale (.int common.tag) = true)
    (he : g.edges.find? place = some e) (htype : e.edgeType = o.edgeType) (hfinish : e.finish = key)
    (howner : g.isOwner common.bound ⟨o.edgeType, o.target⟩ e.start = true)
    (hrun : (Job.cleanup s common).run now g = (.ok n, h))
    (hleft : ∃ m, h.nodes.find? e.start = some m) : h.nodes.find? key = none := by
  have hr := sweeps_of_run hrun
  obtain ⟨keys, count, hpaged, rest, -⟩ := exists_paged_of_run hr
  have hkept : ∀ k m, h.nodes.find? k = some m → k ∉ keys := by
    intro k m hm hk
    have hthere := rest.within.node hm
    rw [Graph.find?_nodes_removeNodes, if_pos hk] at hthere
    cases hthere
  refine Option.eq_none_iff_forall_ne_some.2 fun m hm => ?_
  obtain ⟨x, hx⟩ := hleft
  have hstart : e.start ∉ keys := hkept _ _ hx
  have hkey : key ∉ keys := hkept _ _ hm
  have hedge : (g.removeNodes keys).edges.find? place = some e := by
    rw [Graph.find?_edges_removeNodes, he]
    simp [hstart, hfinish, hkey]
  have hnode : (g.removeNodes keys).nodes.find? key = some node := by
    rw [Graph.find?_nodes_removeNodes, if_neg hkey, hn]
  have howned : (g.removeNodes keys).inScope common.bound s.scope key = true := by
    rw [scope_eq_some_iff.2 ⟨o, ho, rfl⟩]
    exact Graph.isOwned_iff.2
      ⟨place, e, hedge, htype, hfinish, Graph.isOwner_removeNodes howner hstart⟩
  have hfound : key ∈ (g.removeNodes keys).staleNodes common.bound (.int common.tag) s.label
      s.scope := Graph.mem_staleNodes.2 ⟨node, hnode, hl, hstale, howned⟩
  have hnil : (g.removeNodes keys).staleNodes common.bound (.int common.tag) s.label s.scope = [] :=
    hpaged.targets_eq_nil
  rw [hnil] at hfound
  cases hfound

/-- A node that a cleanup does not sweep is left as it is. -/
theorem kept_of_not_sweepsNode (hn : g.nodes.find? key = some node)
    (hkeep : ¬ s.SweepsNode common.bound (.int common.tag) g key)
    (hrun : (Job.cleanup s common).run now g = (.ok n, h)) : h.nodes.find? key = some node := by
  have hvisits := Job.visits_run now (Job.cleanup s common) g
  rw [hrun] at hvisits
  have hspares := spares_of_visits hvisits
  cases hleft : h.nodes.find? key with
  | none => exact absurd (hspares.node hn hleft) hkeep
  | some m => rw [← hn, hspares.within.node hleft]

/-- What a load wrote and the next one did not is stale under the tag of the next, whatever
parameters the next one has. -/
theorem stale_of_unreported (hg : g.WellFormed) (hs : s.MarksLoad)
    (hfirst : -Word.signedBound ≤ first ∧ first < Word.signedBound)
    (hsecond : -Word.signedBound ≤ second ∧ second < Word.signedBound) (hne : first ≠ second)
    (hload : Load.nodes config now s records params first g = (.ok summary, h))
    (hagain : Load.nodes other later s others changed second h = (.ok again, i))
    (hwritten : key ∈ Load.written config now s records params first g)
    (hmissed : key ∉ Load.written other later s others changed second h) :
    ∃ node, i.nodes.find? key = some node ∧ node.hasLabel s.label = true ∧
      node.properties.isStale (.int second) = true := by
  obtain ⟨node, hn, hl, hmark⟩ := (Load.marks_of_nodes hs hg hload).marked key hwritten
  have hmid : h.WellFormed := Load.wellFormed_of_nodes hg hload
  have hframe := (Load.marks_of_nodes hs hmid hagain).frame key hmissed
  refine ⟨node, hframe.trans hn, hl, Record.isStale_iff.2 fun mark hm => ?_⟩
  cases hmark.symm.trans hm
  exact Bool.eq_false_iff.2 fun hsame => hne ((Json.agrees_signed_iff hfirst hsecond).1 hsame)

/-- A node that one load wrote and the next did not, with parameters of its own, is taken away by
the cleanup under the tag of the next, provided that one of its owners outlasts the cleanup; without
an owner in scope it stays as it is. If the owner that the first load means is there before that
load and is no node of the schema itself, every such node goes: the load joins to it all that it
writes, and the edge is not lost. -/
theorem unreported_goes_if_owned (hg : g.Reachable) (ho : s.scopingEdge = some o)
    (hs : s.MarksLoad) (hrecords : ∀ r ∈ records, r.InRange) (hparams : Record.InRange params)
    (hfirst : -Word.signedBound ≤ first ∧ first < Word.signedBound)
    (hsecond : -Word.signedBound ≤ second ∧ second < Word.signedBound) (hne : first ≠ second)
    (hcommon : common.tag = second)
    (hload : Load.nodes config now s records params first g = (.ok summary, h))
    (hagain : Load.nodes other later s others changed second h = (.ok again, i))
    (hrun : (Job.cleanup s common).run last i = (.ok n, j)) :
    ∀ key ∈ Load.written config now s records params first g,
      key ∉ Load.written other later s others changed second h →
      ((∃ place e, i.edges.find? place = some e ∧ e.edgeType = o.edgeType ∧ e.finish = key ∧
          i.isOwner common.bound ⟨o.edgeType, o.target⟩ e.start = true ∧
          ∃ m, j.nodes.find? e.start = some m) → j.nodes.find? key = none) ∧
      (i.isOwned common.bound ⟨o.edgeType, o.target⟩ key = false →
        ∃ node, i.nodes.find? key = some node ∧ j.nodes.find? key = some node) ∧
      ((∀ batch, o.SameOwner common.bound ((Load.baseParameters params first).withBatch batch)) →
        (∃ owner node, g.nodes.find? owner = some node ∧ node.hasLabel s.label = false ∧
          g.isOwner common.bound ⟨o.edgeType, o.target⟩ owner = true) →
        j.nodes.find? key = none) := by
  subst hcommon
  intro key hwritten hmissed
  have howner : s.owner = some o := owner_of_scopingEdge ho
  have hmem : o ∈ s.allEdges := List.mem_append_right _ (Option.mem_toList.2 howner)
  have hvalid : NodePlan.OwnerValid o := s.valid.owner o howner
  have hscope : s.scope = some ⟨o.edgeType, o.target⟩ := scope_eq_some_iff.2 ⟨o, ho, rfl⟩
  have hmid : h.WellFormed := Load.wellFormed_of_nodes hg.wellFormed hload
  obtain ⟨node, hn, hl, hstale⟩ :=
    stale_of_unreported hg.wellFormed hs hfirst hsecond hne hload hagain hwritten hmissed
  refine ⟨?_, fun hout => ⟨node, hn, ?_⟩, fun hsame hpresent => ?_⟩
  · rintro ⟨place, e, he, htype, hfinish, howner, hleft⟩
    exact gone_of_owner_left ho hn hl hstale he htype hfinish howner hrun hleft
  · refine kept_of_not_sweepsNode hn ?_ hrun
    rintro ⟨m, -, -, -, hin⟩
    rw [hscope] at hin
    exact Bool.false_ne_true (hout.symm.trans hin)
  · obtain ⟨owner, m, hm, hlm, howner⟩ := hpresent
    -- the owner outlasts both loads and the cleanup, unchanged
    have hm₁ : h.nodes.find? owner = some m := Load.find?_of_nodes hg.wellFormed hload hm hlm
    have hm₂ : i.nodes.find? owner = some m := Load.find?_of_nodes hmid hagain hm₁ hlm
    have hleft : j.nodes.find? owner = some m := by
      refine kept_of_not_sweepsNode hm₂ ?_ hrun
      rintro ⟨x, hx, hlx, -⟩
      cases hm₂.symm.trans hx
      exact Bool.false_ne_true (hlm.symm.trans hlx)
    have howner₂ : i.isOwner common.bound ⟨o.edgeType, o.target⟩ owner = true :=
      (Graph.isOwner_congr_node (hm₂.trans hm.symm)).trans howner
    -- and so does the edge that the first load joined it by
    obtain ⟨place, hplace⟩ := Load.exists_owner_edge_of_nodes hg.wellFormed hmem hvalid hrecords
      hparams hfirst hload hm hlm
      (fun batch => (Graph.isOwner_congr (hsame batch)).symm.trans howner) hwritten
    obtain ⟨e, he, htype, hstart, hfinish⟩ :=
      Graph.exists_edge_of_edgeOf hvalid (Load.edgeOf_of_nodes hmid hagain hplace)
    subst hstart
    exact gone_of_owner_left ho hn hl hstale he htype hfinish howner₂ hrun ⟨m, hleft⟩

/-- A project is there when a bucket is loaded, and after a load into another project the bucket is
swept. -/
theorem unreported_goes_if_owned_of_sample :
    ∃ summary h again i n j,
      Load.nodes {} 5 Sample.bucket Sample.records Sample.params 1 Sample.start =
        (.ok summary, h) ∧
      Load.nodes {} 6 Sample.bucket [] Sample.elsewhere 2 h = (.ok again, i) ∧
      (Job.cleanup Sample.bucket Sample.common).run 9 i = (.ok n, j) ∧
      3 ∈ Load.written {} 5 Sample.bucket Sample.records Sample.params 1 Sample.start ∧
      j.nodes.find? 3 = none := by
  obtain ⟨summary, h, hload⟩ := Load.nodes_of_check {} 5 Sample.records Sample.start
    Sample.check_load_before
  obtain ⟨again, i, hagain⟩ := Load.nodes_of_check {} 6 [] h Sample.check_load_elsewhere
  obtain ⟨n, j, -, hrun⟩ := run_cleanup 9 i Sample.check_cleanup
  have hwritten :
      3 ∈ Load.written {} 5 Sample.bucket Sample.records Sample.params 1 Sample.start := by
    rw [Load.written, Sample.chunks_records, Load.ensureIndexes_eq]
    decide +kernel
  have hmissed : 3 ∉ Load.written {} 6 Sample.bucket [] Sample.elsewhere 2 h := by
    simp [Load.written_nil]
  have hsame : ∀ batch, Sample.inProject.SameOwner Sample.common.bound
      ((Load.baseParameters Sample.params 1).withBatch batch) :=
    fun _ => List.forall_mem_singleton.2 rfl
  have hin : ∀ r ∈ Sample.records, r.InRange := by decide
  have hparams : Record.InRange Sample.params := by decide
  have howner : Sample.bucket.scopingEdge = some Sample.inProject := rfl
  have hmarks : Sample.bucket.MarksLoad := ⟨.batch Names.loadTag, rfl, rfl, rfl⟩
  have hfirst : -Word.signedBound ≤ 1 ∧ 1 < Word.signedBound := by decide
  have hsecond : -Word.signedBound ≤ 2 ∧ 2 < Word.signedBound := by decide
  have hgoes := unreported_goes_if_owned Sample.reachable_start howner hmarks hin hparams hfirst
    hsecond (by decide) rfl hload hagain hrun 3 hwritten hmissed
  have hpresent : Sample.start.nodes.find? 1 = some (Sample.node "Project" "p" 1) := rfl
  exact ⟨summary, h, again, i, n, j, hload, hagain, hrun, hwritten,
    hgoes.2.2 hsame ⟨1, _, hpresent, by decide, by decide⟩⟩

/-- No project is there when a bucket is loaded, so no edge to it is written, and after a load
without the bucket the cleanup does not find it. -/
theorem unreported_stays_without_owner :
    Sample.bucket.MarksLoad ∧ (∀ e ∈ Sample.bucket.allEdges, e.MarksLoad) ∧
      Sample.bucket.scopingEdge = some Sample.inProject ∧
      ∃ summary h again i n j key node,
        Load.nodes {} 5 Sample.bucket Sample.records Sample.params 1 .empty = (.ok summary, h) ∧
        Load.nodes {} 6 Sample.bucket [] Sample.params 2 h = (.ok again, i) ∧
        (Job.cleanup Sample.bucket Sample.common).run 9 i = (.ok n, j) ∧
        key ∈ Load.written {} 5 Sample.bucket Sample.records Sample.params 1 .empty ∧
        key ∉ Load.written {} 6 Sample.bucket [] Sample.params 2 h ∧
        j.nodes.find? key = some node ∧ node.hasLabel "Bucket" = true := by
  have hmarked : Sample.marked.mapping.ref? Names.mark = some (.batch Names.loadTag) := rfl
  have hmarks : Sample.bucket.MarksLoad := ⟨.batch Names.loadTag, rfl, rfl, rfl⟩
  have hedges : ∀ e ∈ Sample.bucket.allEdges, e.MarksLoad :=
    List.forall_mem_cons.2 ⟨⟨_, hmarked, rfl, rfl⟩,
      List.forall_mem_singleton.2 ⟨_, hmarked, rfl, rfl⟩⟩
  refine ⟨hmarks, hedges, rfl, ?_⟩
  obtain ⟨summary, h, hload⟩ := Load.nodes_of_check {} 5 Sample.records .empty
    Sample.check_load_before
  obtain ⟨again, i, hagain⟩ := Load.nodes_of_check {} 6 [] h Sample.check_load
  obtain ⟨n, j, -, hrun⟩ := run_cleanup 9 i Sample.check_cleanup
  have hwritten : 1 ∈ Load.written {} 5 Sample.bucket Sample.records Sample.params 1 .empty := by
    rw [Load.written, Sample.chunks_records, Load.ensureIndexes_eq]
    decide +kernel
  have hmissed : 1 ∉ Load.written {} 6 Sample.bucket [] Sample.params 2 h := by
    simp [Load.written_nil]
  obtain ⟨-, hh⟩ := Load.batches_of_nodes hload
  have hnone : i.edges.values = [] := by
    rw [Load.eq_indexed_of_nodes_nil hagain, hh, Sample.chunks_records]
    decide +kernel
  obtain ⟨node, hn, hl, -⟩ := stale_of_unreported .empty hmarks (by decide) (by decide) (by decide)
    hload hagain hwritten hmissed
  have hkept : j.nodes.find? 1 = some node := by
    refine kept_of_not_sweepsNode hn ?_ hrun
    rintro ⟨m, -, -, -, howned⟩
    have hscope : Sample.bucket.scope = some ⟨"RESOURCE", Sample.inProject.target⟩ := rfl
    rw [hscope, Graph.inScope, Option.all_some, Graph.isOwned, hnone] at howned
    cases howned
  exact ⟨summary, h, again, i, n, j, 1, node, hload, hagain, hrun, hwritten, hmissed, hkept, hl⟩

end NodeSchema

end GraphSync
