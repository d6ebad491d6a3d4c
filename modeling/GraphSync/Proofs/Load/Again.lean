import GraphSync.Proofs.Load.Chunking
import GraphSync.Proofs.Load.Writes
import GraphSync.Proofs.Value

/-! A load that is run again: it finds everything it wrote, and leaves it as it is. -/
namespace GraphSync

namespace Graph

variable {g h : Graph} {now : Int} {s : NodeSchema} {params : Parameters} {records : List Record}

/-- Nodes that records wrote are left as they are by writing these records again, whatever else was
written in between. -/
theorem putNodes_of_nodes_eq (later : Int) (hg : g.WellFormed) (hh : h.WellFormed)
    (hn : h.nodes = (g.putNodes now s params records).nodes)
    (hid : ∀ r ∈ records, ∃ id, s.properties.id.resolve r params = some id ∧
      id.agrees id = true) :
    h.putNodes later s params records = h := by
  have habsorbs : (nodeWrites s params).Absorbs records (g.putNodes now s params records) :=
    Upserting.absorbs_foldl now hg hid
  have hfind : h.nodeOf s params = (g.putNodes now s params records).nodeOf s params := by
    funext r
    simp only [nodeOf]
    congr 1
    funext id
    rw [findNode, findNode, labelled_congr hn]
  have hsame : (nodeWrites s params).Absorbs records h :=
    habsorbs.congr hfind (congrArg SortedMap.find? hn)
  exact hsame.foldl_eq later hh hid

/-- A batch that is loaded again leaves the graph as the first time left it. -/
theorem loadBatch_loadBatch (now later : Int) (hg : g.WellFormed)
    (hid : ∀ r ∈ records, ∃ id, s.properties.id.resolve r params = some id ∧
      id.agrees id = true) :
    (g.loadBatch now s params records).putNodes later s params records =
        g.loadBatch now s params records ∧
      (g.loadBatch now s params records).loadBatch later s params records =
        g.loadBatch now s params records := by
  have hput : (g.putNodes now s params records).WellFormed := hg.putNodes
  have hload : (g.loadBatch now s params records).WellFormed := hg.loadBatch
  have hnodes : (g.loadBatch now s params records).putNodes later s params records =
      g.loadBatch now s params records := putNodes_of_nodes_eq later hg hload nodes_loadBatch hid
  refine ⟨hnodes, ?_⟩
  have hfits : ∀ w ∈ (g.putNodes now s params records).batchWrites s params records,
      (g.putNodes now s params records).HasEnds w.row := fun w hw => hasEnds_of_mem_batchWrites hw
  have habsorbs : (edgeWrites params (g.putNodes now s params records)).Absorbs
      ((g.putNodes now s params records).batchWrites s params records)
      (g.loadBatch now s params records) := by
    rw [loadBatch, putEdges_eq_foldl]
    exact Upserting.absorbs_foldl now ⟨hput, rfl⟩ hfits
  have hedges := habsorbs.foldl_eq later ⟨hload, nodes_loadBatch⟩ hfits
  rw [loadBatch, hnodes, putEdges_eq_foldl, batchWrites_congr nodes_loadBatch]
  exact hedges

end Graph

namespace Parameters

variable {params : Parameters} {tag : Int} {records : List Record}

theorem inRange_insert {name : String} {v : Json} (hp : Record.InRange params) (hv : v.InRange) :
    Record.InRange (params.insert name v) := by
  intro other w hw
  rw [SortedMap.find?_insert] at hw
  split at hw
  · cases hw
    exact hv
  · exact hp other w hw

/-- What a load binds besides the given parameters is in range as well. -/
theorem inRange_withBatch (hp : Record.InRange params)
    (htag : -Word.signedBound ≤ tag ∧ tag < Word.signedBound) :
    Record.InRange ((Load.baseParameters params tag).withBatch records) :=
  inRange_insert (inRange_insert (inRange_insert hp (Json.inRange_of_signed htag)) trivial) trivial

end Parameters

theorem PropertyRef.agrees_self_of_resolve {r : PropertyRef} {record : Record} {params : Parameters}
    {v : Json} (hrecord : record.InRange) (hparams : Record.InRange params)
    (hv : r.resolve record params = some v) : v.agrees v = true := by
  obtain ⟨name, source, _, _, _⟩ := r
  cases source with
  | recordField => exact Record.agrees_self_of_present hrecord hv
  | batchParameter => exact Record.agrees_self_of_present hparams hv

namespace Load

variable {g h : Graph} {now later tag : Int} {s : NodeSchema} {params : Parameters}
  {records : List Record} {config : LoaderConfig} {summary : LoadSummary}

/-- A record with an identity keeps one that agrees with itself when a batch is bound. -/
theorem exists_id_of_mem_kept {c : List Record} {r : Record}
    (hrecords : ∀ r ∈ records, r.InRange) (hparams : Record.InRange params)
    (htag : -Word.signedBound ≤ tag ∧ tag < Word.signedBound) (hr : r ∈ kept s records params) :
    ∃ id, s.properties.id.resolve r ((baseParameters params tag).withBatch c) = some id ∧
      id.agrees id = true := by
  have hsome : (s.properties.id.resolve r ((baseParameters params tag).withBatch c)).isSome =
      true := isSome_resolve_withBatch (isSome_resolve_of_mem_kept hr)
  obtain ⟨id, hid⟩ := Option.isSome_iff_exists.1 hsome
  have hrange : r.InRange := hrecords r (List.mem_of_mem_filter hr)
  exact ⟨id, hid,
    PropertyRef.agrees_self_of_resolve hrange (Parameters.inRange_withBatch hparams htag) hid⟩

/-- Indexes that are there already are not created again. -/
theorem indexed_of_indexes (hi : h.indexes = (indexed s g).indexes) : indexed s h = h := by
  refine Graph.ext_parts rfl rfl ?_ rfl
  simp only [indexed, Graph.withIndexes] at hi ⊢
  rw [hi, SortedSet.addAll_addAll]

/-- A load whose records fit in one batch can be run again, at any later time, with the same
summary and without any change to the graph; duplicate and conflicting identities included. -/
theorem load_again (later : Int) (hg : g.Reachable)
    (hfit : (kept s records params).length ≤ max config.batchSize 1)
    (hrecords : ∀ r ∈ records, r.InRange) (hparams : Record.InRange params)
    (htag : -Word.signedBound ≤ tag ∧ tag < Word.signedBound)
    (hload : Load.nodes config now s records params tag g = (.ok summary, h)) :
    Load.nodes config later s records params tag h = (.ok summary, h) := by
  obtain ⟨hcheck, hbatches⟩ := batches_of_nodes hload
  have hstart : (indexed s g).WellFormed := wellFormed_indexed hg.wellFormed
  have hindexes : h.indexes = (indexed s g).indexes := by
    rw [hbatches, indexes_batches]
  rw [nodes_eq, forM_check_eq_ok_iff.2 hcheck] at hload ⊢
  obtain ⟨hsummary, -⟩ := Prod.mk.inj hload
  simp only [indexed_of_indexes hindexes, ← Except.ok.inj hsummary]
  by_cases hnone : kept s records params = []
  · have hempty : chunks config.batchSize (kept s records params) = [] := by
      rw [hnone, chunks]
    rw [hempty]
    rfl
  · have hone : chunks config.batchSize (kept s records params) = [kept s records params] :=
      chunks_of_length_le hnone hfit
    have hh : h = (indexed s g).loadBatch now s
        ((baseParameters params tag).withBatch (kept s records params))
          (kept s records params) := by
      rw [hbatches, hone]
      rfl
    obtain ⟨hnodes, hagain⟩ := Graph.loadBatch_loadBatch now later hstart
      fun r hr => exists_id_of_mem_kept (c := kept s records params) hrecords hparams htag hr
    rw [← hh] at hnodes hagain
    have hcount : edgeCount later s (baseParameters params tag) h [kept s records params] =
        edgeCount now s (baseParameters params tag) (indexed s g) [kept s records params] := by
      rw [edgeCount, edgeCount, hnodes, edgeCount, edgeCount]
      congr 2
      refine Graph.rowCounts_congr fun r _ e _ => ?_
      rw [Graph.edgeRows_congr (hh ▸ Graph.nodes_loadBatch)]
    rw [hone, hcount]
    exact congrArg _ hagain

/-- Buckets are loaded a second time. -/
theorem load_again_of_sample : ∃ summary h,
    Load.nodes {} 5 Sample.bucket Sample.records Sample.params 2 Sample.start = (.ok summary, h) ∧
      Load.nodes {} 8 Sample.bucket Sample.records Sample.params 2 h = (.ok summary, h) := by
  obtain ⟨summary, h, hload⟩ := Load.nodes_of_check {} 5 Sample.records Sample.start
    Sample.check_load
  have hfit : (kept Sample.bucket Sample.records Sample.params).length ≤
      max ({} : LoaderConfig).batchSize 1 := by decide
  have hagain := load_again 8 Sample.reachable_start hfit (by decide) (by decide) (by decide) hload
  exact ⟨summary, h, hload, hagain⟩

end Load

end GraphSync
