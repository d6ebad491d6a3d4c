import Mathlib.Data.List.Basic
import GraphSync.Proofs.Graph.Bindings
import GraphSync.Proofs.Graph.Renaming
import GraphSync.Proofs.Load.Written

/-! Loads by rank: what a batch reads and where it writes, whatever the keys of the graph. -/
namespace GraphSync

/-- A write at a place. -/
abbrev Touch := Place × (Record → Record)

namespace Touch

/-- Writes whose order makes no difference. -/
def Independent (t u : Touch) : Prop := t.1 = u.1 → Function.Commute t.2 u.2

end Touch

namespace Links

variable {now : Int} {t u : Touch} {ts us : List Touch}

def touchAll (now : Int) (x : Links) (ts : List Touch) : Links :=
  ts.foldl (fun x t => x.touch now t.1 t.2) x

theorem touch_comm (h : Touch.Independent t u) (x : Links) :
    (x.touch now t.1 t.2).touch now u.1 u.2 = (x.touch now u.1 u.2).touch now t.1 t.2 := by
  by_cases hp : t.1 = u.1
  · have hc := h hp ((x u.1).getD (Graph.createdEdge now))
    simp only [touch, hp, Function.update_self, Option.getD_some, Function.update_idem, hc]
  · rw [touch, touch, touch, touch, Function.update_of_ne (Ne.symm hp), Function.update_of_ne hp,
      Function.update_comm hp]

theorem touch_touchAll (h : ∀ u ∈ us, Touch.Independent t u) (x : Links) :
    (x.touch now t.1 t.2).touchAll now us = (x.touchAll now us).touch now t.1 t.2 := by
  induction us generalizing x with
  | nil => rfl
  | cons u us ih =>
    obtain ⟨hu, hrest⟩ := List.forall_mem_cons.1 h
    simp only [touchAll, List.foldl_cons, touch_comm hu]
    exact ih hrest _

theorem touchAll_comm (h : ∀ t ∈ ts, ∀ u ∈ us, Touch.Independent t u) (x : Links) :
    (x.touchAll now ts).touchAll now us = (x.touchAll now us).touchAll now ts := by
  induction ts generalizing x with
  | nil => rfl
  | cons t ts ih =>
    obtain ⟨ht, hrest⟩ := List.forall_mem_cons.1 h
    have hswap := ih hrest (x.touch now t.1 t.2)
    rw [touch_touchAll ht] at hswap
    exact hswap

theorem touchAll_append (x : Links) :
    x.touchAll now (ts ++ us) = (x.touchAll now ts).touchAll now us := List.foldl_append

/-- Writes of two batches, one after the other for every edge schema, are those of the first batch
before those of the second, if what a schema writes in the second is independent of what a later
schema writes in the first. -/
theorem foldl_touchAll_append {α : Type} {es : List α} {first second : α → List Touch}
    (h : es.Pairwise fun e f => ∀ t ∈ first f, ∀ u ∈ second e, Touch.Independent t u) (x : Links) :
    es.foldl (fun x e => x.touchAll now (first e ++ second e)) x =
      es.foldl (fun x e => x.touchAll now (second e))
        (es.foldl (fun x e => x.touchAll now (first e)) x) := by
  have hpull : ∀ (us : List Touch) (es : List α),
      (∀ f ∈ es, ∀ t ∈ first f, ∀ u ∈ us, Touch.Independent t u) → ∀ x : Links,
      es.foldl (fun x e => x.touchAll now (first e)) (x.touchAll now us) =
        (es.foldl (fun x e => x.touchAll now (first e)) x).touchAll now us := by
    intro us es
    induction es with
    | nil => exact fun _ _ => rfl
    | cons f es ih =>
      intro hes x
      obtain ⟨hf, hrest⟩ := List.forall_mem_cons.1 hes
      rw [List.foldl_cons, List.foldl_cons, ← touchAll_comm hf]
      exact ih hrest _
  induction es generalizing x with
  | nil => rfl
  | cons e es ih =>
    obtain ⟨he, hrest⟩ := List.pairwise_cons.1 h
    simp only [List.foldl_cons, touchAll_append]
    simp only [touchAll_append] at ih
    rw [ih hrest, hpull (second e) es he]

end Links

namespace NodeSchema

/-- No property is read from the list of records that a batch is bound to. -/
def ReadsNoBatch (s : NodeSchema) : Prop :=
  ∀ r ∈ s.references, r.source = .batchParameter → r.name ≠ Names.batch

instance (s : NodeSchema) : Decidable s.ReadsNoBatch :=
  inferInstanceAs (Decidable (∀ r ∈ s.references, _ → _))

variable {s : NodeSchema} {e : EdgeSchema} {params : Parameters} {records batch : List Record}
  {g : Graph} {now : Int}

theorem resolve_withBatch {r : PropertyRef} (hr : r.source = .batchParameter → r.name ≠ Names.batch)
    (record : Record) : r.resolve record (params.withBatch batch) = r.resolve record params := by
  refine PropertyRef.resolve_congr record fun hsource => ?_
  rw [Parameters.withBatch, SortedMap.find?_insert, if_neg (hr hsource)]

theorem resolve_property (hs : s.ReadsNoBatch) {entry : String × PropertyRef}
    (hm : entry ∈ s.properties.mapping) (record : Record) :
    entry.2.resolve record (params.withBatch batch) = entry.2.resolve record params :=
  resolve_withBatch
    (hs _ (List.mem_map_of_mem (List.mem_append_left _ hm))) record

theorem resolve_edgeProperty (hs : s.ReadsNoBatch) (he : e ∈ s.allEdges)
    {entry : String × PropertyRef}
    (hm : entry ∈ e.properties.mapping ++ e.target.matcher.mapping) (record : Record) :
    entry.2.resolve record (params.withBatch batch) = entry.2.resolve record params :=
  resolve_withBatch (hs _ (List.mem_map_of_mem
    (List.mem_append_right _ (List.mem_flatMap.2 ⟨e, he, hm⟩)))) record

theorem resolve_id (hs : s.ReadsNoBatch) (record : Record) :
    s.properties.id.resolve record (params.withBatch batch) =
      s.properties.id.resolve record params :=
  resolve_property hs s.properties.id_mem record

theorem putNode_withBatch (hs : s.ReadsNoBatch) (g : Graph) (record : Record) :
    Graph.putNode now s.upsert (params.withBatch batch) g record =
      Graph.putNode now s.upsert params g record := by
  have hupdate : s.upsert.update (params.withBatch batch) record =
      s.upsert.update params record :=
    NodeUpsert.update_of_resolve fun entry he =>
      resolve_property hs (List.mem_of_mem_filter he) record
  simp only [Graph.putNode, hupdate]
  rw [show s.upsert.properties = s.properties from rfl, resolve_id hs]

theorem putNodes_withBatch (hs : s.ReadsNoBatch) :
    g.putNodes now s (params.withBatch batch) records = g.putNodes now s params records :=
  List.foldl_ext _ _ _ fun g record _ => putNode_withBatch hs g record

theorem matching_withBatch (hs : s.ReadsNoBatch) (he : e ∈ s.allEdges) (record : Record) :
    g.matching record (params.withBatch batch) e.target = g.matching record params e.target :=
  Graph.matching_of_resolve fun _ hm =>
    resolve_edgeProperty hs he (List.mem_append_right _ hm) record

theorem edgeRows_withBatch (hs : s.ReadsNoBatch) (he : e ∈ s.allEdges) (record : Record) :
    g.edgeRows (s.edgeUpsert e) (params.withBatch batch) record =
      g.edgeRows (s.edgeUpsert e) params record := by
  simp only [Graph.edgeRows, edgeUpsert, resolve_id hs, matching_withBatch hs he]

theorem rowCounts_withBatch (hs : s.ReadsNoBatch) :
    g.rowCounts s (params.withBatch batch) records = g.rowCounts s params records := by
  refine List.map_congr_left fun e he => ?_
  simp only [Graph.rowsOf, edgeRows_withBatch hs he]

theorem writeEdges_withBatch (hs : s.ReadsNoBatch) (he : e ∈ s.allEdges)
    {rows : List (Record × List (Nat × Nat))} :
    g.writeEdges now e (params.withBatch batch) rows = g.writeEdges now e params rows :=
  Graph.writeEdges_of_resolve fun b _ _ hm =>
    resolve_edgeProperty hs he (List.mem_append_left _ hm) b.1

/-- If no reference reads the batch, what a batch makes of a graph depends on its records alone. -/
theorem loadBatch_withBatch (hs : s.ReadsNoBatch) :
    g.loadBatch now s (params.withBatch batch) records = g.loadBatch now s params records := by
  rw [Graph.loadBatch, Graph.loadBatch, putNodes_withBatch hs]
  refine List.foldl_ext _ _ _ fun h e he => ?_
  rw [writeEdges_withBatch hs he]
  simp only [Graph.rowsOf, edgeRows_withBatch hs he]

end NodeSchema

namespace Graph

variable {g h : Graph} {now : Int} {s : NodeSchema} {e : EdgeSchema} {params : Parameters}
  {record : Record} {records xs ys : List Record} {row : Nat × Nat} {key : Nat} {n : Node}

theorem putNodes_append : g.putNodes now s params (xs ++ ys) =
    (g.putNodes now s params xs).putNodes now s params ys := List.foldl_append

theorem WellFormed.putNodes (hg : g.WellFormed) :
    (g.putNodes now s params records).WellFormed := by
  induction records generalizing g with
  | nil => exact hg
  | cons r rest ih => exact ih hg.putNode

theorem values_putNodes (hg : g.WellFormed) (hh : h.WellFormed)
    (hv : h.nodes.values = g.nodes.values) : (h.putNodes now s params records).nodes.values =
      (g.putNodes now s params records).nodes.values := by
  induction records generalizing g h with
  | nil => exact hv
  | cons r rest ih => exact ih hg.putNode hh.putNode (values_putNode hg hh hv s.upsert params r)

theorem links_putNodes (hg : g.WellFormed) :
    (g.putNodes now s params records).links = g.links := by
  induction records generalizing g with
  | nil => rfl
  | cons r rest ih => exact (ih hg.putNode).trans (links_putNode hg)

theorem exists_find?_putNode {u : NodeUpsert} (hn : g.nodes.find? key = some n) :
    ∃ m, (putNode now u params g record).nodes.find? key = some m := by
  cases hid : u.properties.id.resolve record params with
  | none => exact ⟨n, by rw [putNode, hid, hn]⟩
  | some id =>
    obtain ⟨m, -, -, hput⟩ := find?_putNode now g hid
    rw [hput]
    split
    · exact ⟨_, rfl⟩
    · exact ⟨n, hn⟩

theorem rank_putNodes (hg : g.WellFormed) (hn : g.nodes.find? key = some n) :
    (g.putNodes now s params records).rank key = g.rank key := by
  induction records generalizing g n with
  | nil => rfl
  | cons r rest ih =>
    have hkept : ∃ m, (putNode now s.upsert params g r).nodes.find? key = some m :=
      exists_find?_putNode hn
    obtain ⟨m, hm⟩ := hkept
    exact (ih hg.putNode hm).trans (rank_putNode hg hn)

theorem values_loadBatch : (g.loadBatch now s params records).nodes.values =
    (g.putNodes now s params records).nodes.values := by
  rw [nodes_loadBatch]

/-- The places where the rows of a record write the properties of an edge. -/
def touches (s : NodeSchema) (params : Parameters) (g : Graph) (e : EdgeSchema)
    (record : Record) : List Touch :=
  ((g.edgeRows (s.edgeUpsert e) params record).map g.rankRow).map fun row =>
    ((e.edgeType, e.direction.orient row.1 row.2), e.properties.mapping.assignAll record params)

theorem touches_congr (hv : h.nodes.values = g.nodes.values) (e : EdgeSchema) (record : Record) :
    h.touches s params e record = g.touches s params e record := by
  rw [touches, touches, rank_edgeRows hv]

theorem links_writeEdge (now : Int) (e : EdgeSchema) (params : Parameters) (record : Record)
    (hg : g.WellFormed) (hrow : g.HasEnds row) :
    (g.writeEdge now e params record row).links = g.links.touch now
      (e.edgeType, e.direction.orient (g.rankRow row).1 (g.rankRow row).2)
      (e.properties.mapping.assignAll record params) := by
  have hends : g.HasEnds
      ((e.direction.orient row.1 row.2).1, (e.direction.orient row.1 row.2).2) :=
    hrow.orient e.direction
  rw [writeEdge_eq_touchEdge, links_touchEdge hg hends]
  cases e.direction <;> rfl

theorem rankRow_congr (hn : h.nodes = g.nodes) : h.rankRow = g.rankRow := by
  have hrank : h.rank = g.rank := rank_congr (by rw [hn])
  funext row
  rw [rankRow, rankRow, hrank]

theorem links_writeRecord (now : Int) (e : EdgeSchema) (params : Parameters) (record : Record)
    {rows : List (Nat × Nat)} (hh : h.WellFormed) (hn : h.nodes = g.nodes)
    (hrows : ∀ row ∈ rows, g.HasEnds row) :
    (rows.foldl (writeEdge now e params record) h).links = h.links.touchAll now
      ((rows.map g.rankRow).map fun row => ((e.edgeType, e.direction.orient row.1 row.2),
        e.properties.mapping.assignAll record params)) := by
  induction rows generalizing h with
  | nil => rfl
  | cons row rest ih =>
    obtain ⟨hrow, hrest⟩ := List.forall_mem_cons.1 hrows
    have hends : h.HasEnds row := (hasEnds_congr hn).2 hrow
    have hfirst : (h.writeEdge now e params record row).WellFormed := hh.step (step_writeEdge hends)
    have hlinks := links_writeEdge now e params record hh hends
    rw [List.foldl_cons, ih hfirst (nodes_writeEdge.trans hn) hrest, hlinks, rankRow_congr hn]
    rfl

/-- The edges of a schema are written where the rows of the records say. -/
theorem links_writeEdges (hh : h.WellFormed) (hn : h.nodes = g.nodes) :
    (h.writeEdges now e params (g.rowsOf s params e records)).links =
      h.links.touchAll now (records.flatMap (g.touches s params e)) := by
  induction records generalizing h with
  | nil => rfl
  | cons r rest ih =>
    have hrows : ∀ row ∈ g.edgeRows (s.edgeUpsert e) params r, g.HasEnds row :=
      fun row hrow => hasEnds_of_mem_edgeRows hrow
    have hfirst : Steps now h ((g.edgeRows (s.edgeUpsert e) params r).foldl
          (writeEdge now e params r) h) ∧ ((g.edgeRows (s.edgeUpsert e) params r).foldl
          (writeEdge now e params r) h).nodes = h.nodes :=
      steps_writeRecord fun row hrow => (hasEnds_congr hn).2 (hrows row hrow)
    have hlinks := links_writeRecord now e params r hh hn hrows
    rw [List.flatMap_cons, Links.touchAll_append, touches, ← hlinks]
    exact ih (hh.steps hfirst.1) (hfirst.2.trans hn)

theorem WellFormed.writeEdges (hh : h.WellFormed) (hn : h.nodes = g.nodes) :
    (h.writeEdges now e params (g.rowsOf s params e records)).WellFormed := by
  refine hh.steps (steps_writeEdges fun b hb row hrow => ?_)
  obtain ⟨r, -, rfl⟩ := List.mem_map.1 hb
  exact (hasEnds_congr hn).2 (hasEnds_of_mem_edgeRows hrow)

/-- The edges of a batch are written schema by schema. -/
theorem links_putEdges (hg : g.WellFormed) :
    (g.putEdges now s params records).WellFormed ∧ (g.putEdges now s params records).links =
      s.allEdges.foldl (fun x e => x.touchAll now (records.flatMap (g.touches s params e)))
        g.links := by
  have hall : ∀ (es : List EdgeSchema) (h : Graph), h.WellFormed → h.nodes = g.nodes →
      (es.foldl (fun h e => h.writeEdges now e params (g.rowsOf s params e records)) h).WellFormed ∧
      (es.foldl (fun h e => h.writeEdges now e params (g.rowsOf s params e records)) h).links =
        es.foldl (fun x e => x.touchAll now (records.flatMap (g.touches s params e))) h.links := by
    intro es
    induction es with
    | nil => exact fun h hh _ => ⟨hh, rfl⟩
    | cons e es ih =>
      intro h hh hn
      have hrest := ih (h.writeEdges now e params (g.rowsOf s params e records))
        (hh.writeEdges hn) (nodes_writeEdges.trans hn)
      rw [links_writeEdges hh hn] at hrest
      exact hrest
  exact hall s.allEdges g hg rfl

theorem WellFormed.loadBatch (hg : g.WellFormed) :
    (g.loadBatch now s params records).WellFormed := (links_putEdges hg.putNodes).1

theorem links_loadBatch (hg : g.WellFormed) : (g.loadBatch now s params records).links =
    s.allEdges.foldl (fun x e => x.touchAll now
      (records.flatMap ((g.putNodes now s params records).touches s params e))) g.links := by
  have hnodes : (g.putNodes now s params records).WellFormed := hg.putNodes
  rw [loadBatch, (links_putEdges hnodes).2, links_putNodes hg]

end Graph

end GraphSync
