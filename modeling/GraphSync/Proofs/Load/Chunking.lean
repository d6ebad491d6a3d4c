import GraphSync.Proofs.Load.Rows
import GraphSync.Proofs.Sample

/-! When the size of the batches makes no difference to what a load leaves. -/
namespace GraphSync

namespace NodeSchema

variable (s : NodeSchema) (now : Int) (base : Parameters) (g : Graph) (records : List Record)

/-- Every record finds its rows as soon as its node is written, and none of the records after it
changes them. -/
def Settled : Prop :=
  ∀ before after, records = before ++ after → ∀ r ∈ before, ∀ e ∈ s.allEdges,
    (g.putNodes now s base before).edgeRows (s.edgeUpsert e) base r =
      (g.putNodes now s base records).edgeRows (s.edgeUpsert e) base r

/-- Rows that a record finds are not lost when further nodes are written. -/
def Growing : Prop :=
  ∀ before more after, records = before ++ more ++ after → ∀ r ∈ before, ∀ e ∈ s.allEdges,
    ((g.putNodes now s base before).edgeRows (s.edgeUpsert e) base r).Sublist
      ((g.putNodes now s base (before ++ more)).edgeRows (s.edgeUpsert e) base r)

/-- Where two edge schemas write to one edge for two records, either order leaves the same. -/
def Ordered : Prop :=
  records.Pairwise fun r r' => s.allEdges.Pairwise fun e f =>
    ∀ t ∈ (g.putNodes now s base records).touches s base f r,
      ∀ u ∈ (g.putNodes now s base records).touches s base e r', Touch.Independent t u

end NodeSchema

theorem eq_foldl {σ α β : Type} {f : σ → α → σ} {field : σ → β}
    (h : ∀ x a, field (f x a) = field x) (as : List α) (x : σ) :
    field (as.foldl f x) = field x := by
  induction as generalizing x with
  | nil => rfl
  | cons a as ih => exact (ih (f x a)).trans (h x a)

namespace Graph

variable {g h i : Graph} {now : Int} {s : NodeSchema} {base params : Parameters}
  {records xs ys : List Record} {record : Record}

theorem indexes_putNode {u : NodeUpsert} :
    (putNode now u params g record).indexes = g.indexes := by
  simp only [putNode, updateNode]
  split
  · rfl
  · split
    · split <;> rfl
    · rfl

theorem indexes_touchEdge {edgeType : String} {start finish : Nat} {f : Record → Record} :
    (g.touchEdge now edgeType start finish f).indexes = g.indexes := by
  simp only [touchEdge, locateEdge, updateEdge]
  split <;> split <;> rfl

theorem indexes_writeEdges {e : EdgeSchema} {batch : List (Record × List (Nat × Nat))} :
    (g.writeEdges now e params batch).indexes = g.indexes := by
  have hrecord : ∀ (h : Graph) (b : Record × List (Nat × Nat)),
      (b.2.foldl (writeEdge now e params b.1) h).indexes = h.indexes := fun h b =>
    eq_foldl (fun _ _ => indexes_touchEdge) b.2 h
  exact eq_foldl hrecord batch g

/-- Batches create no indexes. -/
theorem indexes_loadBatch : (g.loadBatch now s params records).indexes = g.indexes := by
  have hnodes : (g.putNodes now s params records).indexes = g.indexes :=
    eq_foldl (fun _ _ => indexes_putNode) records g
  have hedges : ((g.putNodes now s params records).putEdges now s params records).indexes =
      (g.putNodes now s params records).indexes :=
    eq_foldl (fun _ _ => indexes_writeEdges) s.allEdges _
  exact hedges.trans hnodes

end Graph

namespace Load

variable {g h : Graph} {now : Int} {s : NodeSchema} {base params : Parameters} {tag : Int}
  {records : List Record} {cs : List (List Record)} {config : LoaderConfig}

theorem batches_cons (hs : s.ReadsNoBatch) (c : List Record) : batches now s base g (c :: cs) =
    batches now s base (g.loadBatch now s base c) cs := by
  rw [batches, List.foldl_cons, NodeSchema.loadBatch_withBatch hs]
  rfl

theorem wellFormed_batches (hg : g.WellFormed) : (batches now s base g cs).WellFormed := by
  induction cs generalizing g with
  | nil => exact hg
  | cons c cs ih => exact ih hg.loadBatch

theorem indexes_batches : (batches now s base g cs).indexes = g.indexes :=
  eq_foldl (fun _ _ => Graph.indexes_loadBatch) cs g

/-- Batches leave the nodes that their records written one by one leave. -/
theorem values_batches (hs : s.ReadsNoBatch) (hg : g.WellFormed) :
    (batches now s base g cs).nodes.values = (g.putNodes now s base cs.flatten).nodes.values := by
  induction cs generalizing g with
  | nil => rfl
  | cons c cs ih =>
    rw [batches_cons hs, ih hg.loadBatch, List.flatten_cons, Graph.putNodes_append]
    exact Graph.values_putNodes hg.putNodes hg.loadBatch Graph.values_loadBatch

/-- If every batch touches what it would touch after all of them, and the order of the touches
makes no difference, batches leave the edges that all their records in one batch leave. -/
theorem links_batches (last : Graph) (hs : s.ReadsNoBatch) (hg : g.WellFormed)
    (htouches : ∀ before after, cs.flatten = before ++ after → ∀ r ∈ before, ∀ e ∈ s.allEdges,
      (g.putNodes now s base before).touches s base e r = last.touches s base e r)
    (hordered : cs.flatten.Pairwise fun r r' => s.allEdges.Pairwise fun e f =>
      ∀ t ∈ last.touches s base f r, ∀ u ∈ last.touches s base e r', Touch.Independent t u) :
    (batches now s base g cs).links = s.allEdges.foldl
      (fun x e => x.touchAll now (cs.flatten.flatMap (last.touches s base e))) g.links := by
  induction cs generalizing g with
  | nil => exact (List.foldl_fixed _).symm
  | cons c cs ih =>
    rw [List.flatten_cons] at htouches hordered
    obtain ⟨-, hrest, hcross⟩ := List.pairwise_append.1 hordered
    have hnext : ∀ before after, cs.flatten = before ++ after → ∀ r ∈ before, ∀ e ∈ s.allEdges,
        ((g.loadBatch now s base c).putNodes now s base before).touches s base e r =
          last.touches s base e r := by
      intro before after hsplit r hr e he
      have hall := htouches (c ++ before) after (by rw [hsplit, List.append_assoc]) r
        (List.mem_append_right _ hr) e he
      rw [Graph.putNodes_append] at hall
      rw [← hall]
      exact Graph.touches_congr
        (Graph.values_putNodes hg.putNodes hg.loadBatch Graph.values_loadBatch) e r
    have hfirst : (g.loadBatch now s base c).links = s.allEdges.foldl
        (fun x e => x.touchAll now (c.flatMap (last.touches s base e))) g.links := by
      rw [Graph.links_loadBatch hg]
      refine List.foldl_ext _ _ _ fun x e he => ?_
      rw [List.flatMap_congr fun r hr => htouches c cs.flatten rfl r hr e he]
    have hindependent : s.allEdges.Pairwise fun e f =>
        ∀ t ∈ c.flatMap (last.touches s base f),
          ∀ u ∈ cs.flatten.flatMap (last.touches s base e), Touch.Independent t u := by
      refine List.pairwise_iff_forall_sublist.2 fun {e f} hef t ht u hu => ?_
      obtain ⟨r, hr, ht⟩ := List.mem_flatMap.1 ht
      obtain ⟨r', hr', hu⟩ := List.mem_flatMap.1 hu
      exact List.pairwise_iff_forall_sublist.1 (hcross r hr r' hr') hef t ht u hu
    simp only [batches_cons hs, ih hg.loadBatch hnext hrest, hfirst, List.flatten_cons,
      List.flatMap_append, Links.foldl_touchAll_append hindependent]

/-- How many rows batches write depends on the nodes alone. -/
theorem edgeCount_congr (hg : g.WellFormed) (hh : h.WellFormed)
    (hv : h.nodes.values = g.nodes.values) :
    edgeCount now s base h cs = edgeCount now s base g cs := by
  induction cs generalizing g h with
  | nil => rfl
  | cons c cs ih =>
    have hnodes : (h.putNodes now s (base.withBatch c) c).nodes.values =
        (g.putNodes now s (base.withBatch c) c).nodes.values := Graph.values_putNodes hg hh hv
    have hbatch : (h.loadBatch now s (base.withBatch c) c).nodes.values =
        (g.loadBatch now s (base.withBatch c) c).nodes.values := by
      rw [Graph.values_loadBatch, hnodes, Graph.values_loadBatch]
    rw [edgeCount, edgeCount, ih hg.loadBatch hh.loadBatch hbatch]
    congr 2
    exact Graph.rowCounts_congr fun r _ e _ =>
      Graph.length_edgeRows_congr hnodes (s.edgeUpsert e) r

theorem edgeCount_cons (hs : s.ReadsNoBatch) (hg : g.WellFormed) (c : List Record) :
    edgeCount now s base g (c :: cs) =
      total ((g.putNodes now s base c).rowCounts s base c) +
        edgeCount now s base (g.putNodes now s base c) cs := by
  rw [edgeCount, NodeSchema.putNodes_withBatch hs, NodeSchema.rowCounts_withBatch hs,
    NodeSchema.loadBatch_withBatch hs]
  congr 1
  exact edgeCount_congr hg.putNodes hg.loadBatch Graph.values_loadBatch

/-- If records find in their batch as many rows as in the end, that is how many are written. -/
theorem edgeCount_eq (last : Graph) (hs : s.ReadsNoBatch) (hg : g.WellFormed)
    (hlen : ∀ before after, cs.flatten = before ++ after → ∀ r ∈ before, ∀ e ∈ s.allEdges,
      ((g.putNodes now s base before).edgeRows (s.edgeUpsert e) base r).length =
        (last.edgeRows (s.edgeUpsert e) base r).length) :
    edgeCount now s base g cs = total (last.rowCounts s base cs.flatten) := by
  induction cs generalizing g with
  | nil => exact Graph.total_rowCounts_nil.symm
  | cons c cs ih =>
    rw [List.flatten_cons] at hlen
    have hrest := ih (g := g.putNodes now s base c) hg.putNodes
      fun before after hsplit r hr e he => by
        rw [← Graph.putNodes_append]
        exact hlen (c ++ before) after (by rw [hsplit, List.append_assoc]) r
          (List.mem_append_right _ hr) e he
    rw [edgeCount_cons hs hg, hrest, List.flatten_cons, Graph.total_rowCounts_append,
      Graph.rowCounts_congr (hlen c cs.flatten rfl)]

/-- If records find in their batch no more rows than in the end, they write as many only if each
of them finds as many. -/
theorem eq_of_edgeCount_eq (last : Graph) (cs : List (List Record)) (hs : s.ReadsNoBatch)
    (hg : g.WellFormed)
    (hle : ∀ before after, cs.flatten = before ++ after → ∀ r ∈ before, ∀ e ∈ s.allEdges,
      ((g.putNodes now s base before).edgeRows (s.edgeUpsert e) base r).length ≤
        (last.edgeRows (s.edgeUpsert e) base r).length) :
    edgeCount now s base g cs ≤ total (last.rowCounts s base cs.flatten) ∧
      (edgeCount now s base g cs = total (last.rowCounts s base cs.flatten) →
        ∀ before c after, cs = before ++ c :: after → ∀ r ∈ c, ∀ e ∈ s.allEdges,
          ((g.putNodes now s base (before.flatten ++ c)).edgeRows (s.edgeUpsert e) base r).length =
            (last.edgeRows (s.edgeUpsert e) base r).length) := by
  induction cs generalizing g with
  | nil => exact ⟨Nat.zero_le _, fun _ before c after h => by simp at h⟩
  | cons c cs ih =>
    rw [List.flatten_cons] at hle ⊢
    obtain ⟨hfirst, hfirstEq⟩ := Graph.eq_of_total_rowCounts_eq (hle c cs.flatten rfl)
    obtain ⟨hrest, hrestEq⟩ := ih (g := g.putNodes now s base c) hg.putNodes
      fun before after hsplit r hr e he => by
        rw [← Graph.putNodes_append]
        exact hle (c ++ before) after (by rw [hsplit, List.append_assoc]) r
          (List.mem_append_right _ hr) e he
    rw [edgeCount_cons hs hg, Graph.total_rowCounts_append]
    refine ⟨Nat.add_le_add hfirst hrest, fun hsum before d after hsplit => ?_⟩
    cases before with
    | nil =>
      obtain ⟨rfl, rfl⟩ := List.cons.inj hsplit
      exact hfirstEq (by omega)
    | cons b before =>
      obtain ⟨rfl, hcs⟩ := List.cons.inj hsplit
      intro r hr e he
      rw [List.flatten_cons, List.append_assoc, Graph.putNodes_append]
      exact hrestEq (by omega) before d after hcs r hr e he

theorem chunks_one (records : List Record) : chunks 1 records = records.map fun r => [r] := by
  induction records with
  | nil => rw [chunks]; rfl
  | cons r rest ih => simp [chunks, ih]

/-- Records that fit in one batch are one batch. -/
theorem chunks_of_length_le {size : Nat} (hne : records ≠ [])
    (hfit : records.length ≤ max size 1) : chunks size records = [records] := by
  cases records with
  | nil => exact absurd rfl hne
  | cons r rest =>
    have hrest : rest.length ≤ size - 1 := by
      rw [List.length_cons] at hfit
      omega
    rw [chunks, List.take_of_length_le hrest, List.drop_of_length_le hrest, chunks]

theorem chunks_length (hne : records ≠ []) : chunks records.length records = [records] :=
  chunks_of_length_le hne (Nat.le_max_left _ _)

end Load

namespace NodeSchema

variable {s : NodeSchema} {now tag : Int} {base params : Parameters} {g h : Graph}
  {records : List Record} {config other : LoaderConfig} {cs ds : List (List Record)}

theorem Settled.touches_eq (hg : g.WellFormed) (hs : s.Settled now base g records)
    {before after : List Record} (hsplit : records = before ++ after) :
    ∀ r ∈ before, ∀ e ∈ s.allEdges, (g.putNodes now s base before).touches s base e r =
      (g.putNodes now s base records).touches s base e r := by
  intro r hr e he
  have hrows := hs before after hsplit r hr e he
  rw [hsplit, Graph.putNodes_append] at hrows ⊢
  exact Graph.touches_putNodes hg.putNodes hrows

theorem Settled.growing (hs : s.Settled now base g records) : s.Growing now base g records := by
  intro before more after hsplit r hr e he
  have hbefore := hs before (more ++ after) (by rw [hsplit, List.append_assoc]) r hr e he
  have hmore := hs (before ++ more) after hsplit r (List.mem_append_left _ hr) e he
  rw [hbefore, hmore]

/-- Settled and ordered records leave the same whichever way they are divided into batches. -/
theorem alike_batches (hs : s.ReadsNoBatch) (hg : g.WellFormed)
    (hsettled : s.Settled now base g records) (hordered : s.Ordered now base g records)
    (hc : cs.flatten = records) (hd : ds.flatten = records) :
    Load.edgeCount now s base g cs = Load.edgeCount now s base g ds ∧
      (Load.batches now s base g cs).Alike (Load.batches now s base g ds) := by
  have hcount : ∀ xs : List (List Record), xs.flatten = records →
      Load.edgeCount now s base g xs =
        total ((g.putNodes now s base records).rowCounts s base records) := by
    intro xs hx
    rw [Load.edgeCount_eq (g.putNodes now s base records) hs hg, hx]
    intro before after hsplit r hr e he
    rw [hsettled before after (hx ▸ hsplit) r hr e he]
  have hlinks : ∀ xs : List (List Record), xs.flatten = records →
      (Load.batches now s base g xs).links = s.allEdges.foldl (fun x e => x.touchAll now
        (records.flatMap ((g.putNodes now s base records).touches s base e))) g.links := by
    intro xs hx
    rw [Load.links_batches (g.putNodes now s base records) hs hg, hx]
    · exact fun before after hsplit => hsettled.touches_eq hg (hx ▸ hsplit)
    · exact hx ▸ hordered
  refine ⟨(hcount cs hc).trans (hcount ds hd).symm, ?_⟩
  refine Graph.alike_of_links (Load.wellFormed_batches hg) (Load.wellFormed_batches hg) ?_ ?_ ?_
  · rw [Load.values_batches hs hg, Load.values_batches hs hg, hc, hd]
  · rw [hlinks cs hc, hlinks ds hd]
  · rw [Load.indexes_batches, Load.indexes_batches]

/-- If records one by one and all at once write as many rows, and none is lost, they are settled. -/
theorem settled_of_edgeCount_eq (hs : s.ReadsNoBatch) (hg : g.WellFormed)
    (hgrowing : s.Growing now base g records)
    (hcount : Load.edgeCount now s base g (Load.chunks 1 records) =
      Load.edgeCount now s base g (Load.chunks records.length records)) :
    s.Settled now base g records := by
  intro before after hsplit r hr e he
  have hne : records ≠ [] := by
    rintro rfl
    rw [List.nil_eq_append_iff.1 hsplit |>.1] at hr
    cases hr
  have hflat : ∀ xs : List Record, (xs.map fun r => [r]).flatten = xs := by
    intro xs
    rw [← Load.chunks_one, Load.flatten_chunks]
  have hall : Load.edgeCount now s base g [records] =
      total ((g.putNodes now s base records).rowCounts s base records) := by
    rw [Load.edgeCount_cons hs hg]
    rfl
  rw [Load.chunks_one, Load.chunks_length hne, hall] at hcount
  have hfull : ∀ {first rest}, records = first ++ rest → ∀ r ∈ first, ∀ e ∈ s.allEdges,
      ((g.putNodes now s base first).edgeRows (s.edgeUpsert e) base r).Sublist
        ((g.putNodes now s base records).edgeRows (s.edgeUpsert e) base r) := by
    intro first rest h r hr e he
    rw [h]
    exact hgrowing first rest [] (by rw [h, List.append_nil]) r hr e he
  obtain ⟨-, hsame⟩ := Load.eq_of_edgeCount_eq (g.putNodes now s base records)
    (records.map fun r => [r]) hs hg
    fun first rest h r hr e he => (hfull (hflat records ▸ h) r hr e he).length_le
  rw [hflat] at hsame
  obtain ⟨front, back, rfl⟩ := List.append_of_mem hr
  have hsingle := hsame hcount (front.map fun r => [r]) [r] ((back ++ after).map fun r => [r])
    (by rw [hsplit]; simp) r (List.mem_singleton_self r) e he
  rw [hflat] at hsingle
  -- the record's rows in a batch of its own lie within those before, and these within the last
  have hlow :=
    (hgrowing (front ++ [r]) back after (by rw [hsplit]; simp) r (by simp) e he).length_le
  have hhigh := hfull hsplit r hr e he
  rw [show front ++ [r] ++ back = front ++ r :: back by simp] at hlow
  exact hhigh.eq_of_length (Nat.le_antisymm hhigh.length_le (hsingle ▸ hlow))

/-- A load gives the same summary at every batch size, and leaves graphs that are equal but for
their keys. -/
def LoadsAlike (s : NodeSchema) (now : Int) (g : Graph) (records : List Record)
    (params : Parameters) (tag : Int) : Prop :=
  ∀ config other : LoaderConfig,
    (Load.nodes config now s records params tag g).1 =
        (Load.nodes other now s records params tag g).1 ∧
      (Load.nodes config now s records params tag g).2.Alike
        (Load.nodes other now s records params tag g).2

/-- A load leaves the same nodes at every batch size. It leaves the same edges, and counts them
alike, if its records find their rows as soon as they are written and no two schemas write to one
edge in an order that matters; and, unless a record can lose a row, only then. -/
theorem loads_alike_iff_settled (hs : s.ReadsNoBatch) (hg : g.Reachable) :
    (∀ config other : LoaderConfig,
      (Load.nodes config now s records params tag g).2.nodes.values =
        (Load.nodes other now s records params tag g).2.nodes.values) ∧
    (s.Ordered now (Load.baseParameters params tag) (Load.indexed s g)
        (Load.kept s records params) →
      s.Settled now (Load.baseParameters params tag) (Load.indexed s g)
        (Load.kept s records params) →
      s.LoadsAlike now g records params tag) ∧
    ((∃ config summary h, Load.nodes config now s records params tag g = (.ok summary, h)) →
      s.Growing now (Load.baseParameters params tag) (Load.indexed s g)
        (Load.kept s records params) →
      s.LoadsAlike now g records params tag →
      s.Settled now (Load.baseParameters params tag) (Load.indexed s g)
        (Load.kept s records params)) := by
  have hstart : (Load.indexed s g).WellFormed := Load.wellFormed_indexed hg.wellFormed
  refine ⟨fun config other => ?_, fun hordered hsettled config other => ?_,
    fun ⟨config, summary, h, hload⟩ hgrowing halike => ?_⟩
  · rw [Load.nodes_eq, Load.nodes_eq]
    split
    · rfl
    · rw [Load.values_batches hs hstart, Load.values_batches hs hstart, Load.flatten_chunks,
        Load.flatten_chunks]
  · rw [Load.nodes_eq, Load.nodes_eq]
    split
    · exact ⟨rfl, .refl _⟩
    · obtain ⟨hcount, hsame⟩ := alike_batches hs hstart hsettled hordered
        (Load.flatten_chunks config.batchSize _) (Load.flatten_chunks other.batchSize _)
      rw [hcount]
      exact ⟨rfl, hsame⟩
  · obtain ⟨hcheck, -⟩ := Load.batches_of_nodes hload
    have hsummary := (halike { batchSize := 1 }
      { batchSize := (Load.kept s records params).length }).1
    rw [Load.nodes_eq, Load.nodes_eq, Load.forM_check_eq_ok_iff.2 hcheck] at hsummary
    exact settled_of_edgeCount_eq hs hstart hgrowing
      (congrArg LoadSummary.edges (Except.ok.inj hsummary))

end NodeSchema

namespace NodeSchema

variable {s : NodeSchema} {now : Int} {base : Parameters} {g : Graph} {records : List Record}

/-- Records are settled if no target of an edge is among the nodes that are written. -/
theorem settled_of_apart (hg : g.WellFormed)
    (hself : ∀ r ∈ records, (s.properties.id.resolve r base).any fun id => id.agrees id)
    (hapart : ∀ e ∈ s.allEdges, e.target.label ∉ s.labels ∧ g.LabelsApart s.label e.target.label) :
    s.Settled now base g records := by
  rintro before after rfl r hr e he
  exact Graph.edgeRows_putNodes hg (hself r (List.mem_append_left _ hr)) hr (hapart e he).2
    (hapart e he).1 after

/-- Edge schemas of types of their own write to edges of their own. -/
theorem ordered_of_nodup (ht : (s.allEdges.map (·.edgeType)).Nodup) :
    s.Ordered now base g records := by
  refine List.Pairwise.imp (R := fun _ _ => True) (fun {r r'} _ => ?_)
    (List.pairwise_of_forall fun _ _ => trivial)
  refine (List.pairwise_map.1 ht).imp fun {e f} hne t ht u hu hp => absurd ?_ hne
  obtain ⟨row, -, rfl⟩ := List.mem_map.1 ht
  obtain ⟨row', -, rfl⟩ := List.mem_map.1 hu
  exact (congrArg Prod.fst hp).symm

/-- Buckets are loaded alike at every batch size, and lose no row. -/
theorem loads_alike_iff_settled_of_sample :
    (∃ config summary h, Load.nodes config 5 Sample.bucket Sample.records Sample.params 2
        Sample.start = (.ok summary, h)) ∧
      Sample.bucket.Growing 5 (Load.baseParameters Sample.params 2)
        (Load.indexed Sample.bucket Sample.start)
        (Load.kept Sample.bucket Sample.records Sample.params) ∧
      Sample.bucket.LoadsAlike 5 Sample.start Sample.records Sample.params 2 := by
  have hreads : Sample.bucket.ReadsNoBatch := by decide
  have hstart := Load.wellFormed_indexed (s := Sample.bucket) Sample.reachable_start.wellFormed
  have hself : ∀ r ∈ Load.kept Sample.bucket Sample.records Sample.params,
      (Sample.bucket.properties.id.resolve r (Load.baseParameters Sample.params 2)).any
        fun id => id.agrees id := by decide
  have hapart : ∀ e ∈ Sample.bucket.allEdges, e.target.label ∉ Sample.bucket.labels ∧
      (Load.indexed Sample.bucket Sample.start).LabelsApart "Bucket" e.target.label := by
    decide
  have hsettled : Sample.bucket.Settled 5 _ _ _ := settled_of_apart hstart hself hapart
  obtain ⟨summary, h, hload⟩ := Load.nodes_of_check {} 5 Sample.records Sample.start
    Sample.check_load
  have halike := (loads_alike_iff_settled hreads Sample.reachable_start).2.1
    (ordered_of_nodup (by decide)) hsettled
  exact ⟨⟨{}, summary, h, hload⟩, hsettled.growing, halike⟩

end NodeSchema

end GraphSync
