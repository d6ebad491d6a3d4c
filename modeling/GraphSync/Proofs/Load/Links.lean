import GraphSync.Proofs.Load.Joined
import GraphSync.Proofs.Load.Again
import GraphSync.Proofs.Load.Atomic
import GraphSync.Proofs.Statement.Reading

/-! Loads of standalone edges: which edges there are afterwards, and what they carry. -/
namespace GraphSync

namespace Graph

variable {g h : Graph} {now : Int} {params base : Parameters} {records : List Record}
  {record : Record} {u : LinkUpsert} {w : EdgeWrite} {ws : List EdgeWrite} {start finish : Nat}

/-- A record pairs two nodes: a source with a target, in the direction of the edge. -/
def Pairs (g : Graph) (u : LinkUpsert) (params : Parameters) (record : Record)
    (start finish : Nat) : Prop :=
  ∃ a ∈ g.matching record params u.source, ∃ b ∈ g.matching record params u.edge.target,
    u.edge.direction.orient a b = (start, finish)

/-- The rows of the records of a batch. -/
def linkWrites (g : Graph) (u : LinkUpsert) (params : Parameters) (records : List Record) :
    List EdgeWrite :=
  records.flatMap fun r => (g.linkRows u params r).map (⟨u.edge, r, ·⟩)

/-- How many rows a record has. -/
def pairCount (g : Graph) (u : LinkUpsert) (params : Parameters) (record : Record) : Nat :=
  (g.matching record params u.source).length * (g.matching record params u.edge.target).length

theorem length_linkRows : (g.linkRows u params record).length = g.pairCount u params record := by
  simp [linkRows, pairCount]

theorem mem_linkRows {row : Nat × Nat} : row ∈ g.linkRows u params record ↔
    row.1 ∈ g.matching record params u.source ∧
      row.2 ∈ g.matching record params u.edge.target := by
  obtain ⟨a, b⟩ := row
  simp [linkRows]

theorem mem_linkWrites : w ∈ g.linkWrites u params records ↔
    w.schema = u.edge ∧ w.record ∈ records ∧ w.row ∈ g.linkRows u params w.record :=
  mem_recordRows

/-- The rows of a record are the nodes that it pairs. -/
theorem pairs_iff : g.Pairs u params record start finish ↔
    ∃ row ∈ g.linkRows u params record,
      u.edge.direction.orient row.1 row.2 = (start, finish) := by
  constructor
  · rintro ⟨a, ha, b, hb, ho⟩
    exact ⟨(a, b), mem_linkRows.2 ⟨ha, hb⟩, ho⟩
  · rintro ⟨row, hrow, ho⟩
    obtain ⟨ha, hb⟩ := mem_linkRows.1 hrow
    exact ⟨row.1, ha, row.2, hb, ho⟩

theorem hasEnds_of_mem_linkWrites (hw : w ∈ g.linkWrites u params records) : g.HasEnds w.row :=
  hasEnds_of_mem_linkRows (mem_linkWrites.1 hw).2.2

/-- The joints of a batch are those of the pairs of its records. -/
theorem exists_linkWrite_iff : (∃ w ∈ g.linkWrites u params records,
      w.joint = (u.edge.edgeType, start, finish)) ↔
    ∃ r ∈ records, g.Pairs u params r start finish := by
  have hpairs : ∀ r ∈ records, ∀ start finish, g.Pairs u params r start finish ↔
      ∃ row ∈ g.linkRows u params r, u.edge.direction.orient row.1 row.2 = (start, finish) :=
    fun r _ start finish => pairs_iff
  exact (exists_recordRow_iff hpairs).trans (and_iff_right rfl)

theorem linkWrites_append {xs ys : List Record} : g.linkWrites u params (xs ++ ys) =
    g.linkWrites u params xs ++ g.linkWrites u params ys := recordRows_append

theorem matching_congr (hn : h.nodes = g.nodes) : h.matching = g.matching := by
  funext record params p
  simp only [matching, labelled_congr hn]

theorem linkRows_congr (hn : h.nodes = g.nodes) : h.linkRows u params = g.linkRows u params := by
  funext record
  rw [linkRows, linkRows, matching_congr hn]

theorem pairs_congr (hn : h.nodes = g.nodes) : h.Pairs = g.Pairs := by
  funext u params record start finish
  rw [Pairs, Pairs, matching_congr hn]

theorem pairCount_congr (hn : h.nodes = g.nodes) :
    h.pairCount u params = g.pairCount u params := by
  funext record
  rw [pairCount, pairCount, matching_congr hn]

theorem linkWrites_congr (hn : h.nodes = g.nodes) :
    h.linkWrites u params records = g.linkWrites u params records := by
  simp only [linkWrites, linkRows_congr hn]

theorem apply_upsertLinks (now : Int) (g : Graph) (u : LinkUpsert)
    (hrecords : params.records = .ok records) :
    g.apply now (.upsertLinks u) params =
      .ok (g.putRows now params (g.linkWrites u params records),
        total (records.map (g.pairCount u params))) := by
  have hcount : (records.map fun r => (g.linkRows u params r).length) =
      records.map (g.pairCount u params) := List.map_congr_left fun r _ => length_linkRows
  rw [← hcount]
  exact upsertRows_eq_putRows hrecords

/-- Rows that are written again leave everything as it is. -/
theorem putRows_putRows (later : Int) (hg : g.WellFormed) (hws : ∀ w ∈ ws, g.HasEnds w.row) :
    (g.putRows now params ws).putRows later params ws = g.putRows now params ws := by
  have habsorbs : (edgeWrites params g).Absorbs ws (g.putRows now params ws) :=
    Upserting.absorbs_foldl now ⟨hg, rfl⟩ hws
  exact habsorbs.foldl_eq later ⟨hg.putRows hws, nodes_putRows⟩ hws

end Graph

namespace Load

variable {g h : Graph} {now tag : Int} {e : EdgeSchema} {u : LinkUpsert} {source : Endpoint}
  {params base : Parameters} {records : List Record} {cs : List (List Record)}
  {config : LoaderConfig} {summary : LoadSummary}

/-- What the indexes of a standalone edge are for. -/
def linkTargets (u : LinkUpsert) : List IndexTarget :=
  distinctTargets (EdgeSchema.endpointIndexes u.source ++ EdgeSchema.endpointIndexes u.edge.target)

/-- The graph that the batches of a load of standalone edges start with. -/
def linkIndexed (u : LinkUpsert) (g : Graph) : Graph := g.withIndexes (linkTargets u)

/-- Batches of standalone edges, one after the other. -/
def linkBatches (now : Int) (u : LinkUpsert) (base : Parameters) (g : Graph)
    (cs : List (List Record)) : Graph :=
  cs.foldl (fun h c => h.putRows now (base.withBatch c) (h.linkWrites u (base.withBatch c) c)) g

/-- How many rows batches write; they are read off the nodes, which stay the same. -/
def linkCount (u : LinkUpsert) (base : Parameters) (g : Graph) (cs : List (List Record)) : Nat :=
  total (cs.map fun c => total (c.map (g.pairCount u (base.withBatch c))))

theorem ensureLinkIndexes_eq (now : Int) (g : Graph) (hs : e.source = some source) :
    ∃ n, ensureLinkIndexes now e g = (.ok n, linkIndexed ⟨source, e⟩ g) := by
  have hall : e.indexStatements = .ok ((linkTargets ⟨source, e⟩).map .createIndex) := by
    simp only [EdgeSchema.indexStatements, EdgeSchema.linkSource, hs]
    rfl
  have hnamed : ∀ t ∈ linkTargets ⟨source, e⟩, t.Named := by
    intro t ht
    rcases List.mem_append.1 (mem_distinctTargets.1 ht) with ht | ht
    · exact NodeSchema.named_of_mem_endpointIndexes (e.valid.source source hs) ht
    · exact NodeSchema.named_of_mem_endpointIndexes e.valid.target ht
  refine ⟨(linkTargets ⟨source, e⟩).length, ?_⟩
  rw [ensureLinkIndexes, hall]
  exact (GraphM.bind_of_ok rfl).trans (createIndexes_eq hnamed)

theorem nodes_linkBatches : (linkBatches now u base g cs).nodes = g.nodes :=
  eq_foldl (fun _ _ => Graph.nodes_putRows) cs g

/-- All the batches of a load in one transaction, and what is counted of each. -/
theorem execute_linkBatches (now : Int) (g : Graph) (cs : List (List Record))
    (hb : base.contains Names.batch = true)
    (hcheck : BoundStatement.check ⟨.upsertLinks u, base⟩ = .ok ()) :
    g.execute now (cs.flatMap (bindBatch [.upsertLinks u] base)) = .ok (linkBatches now u base g cs,
      cs.map fun c => total (c.map (g.pairCount u (base.withBatch c)))) := by
  induction cs generalizing g with
  | nil => rfl
  | cons c cs ih =>
    have hfirst : BoundStatement.check ⟨.upsertLinks u, base.withBatch c⟩ = .ok () :=
      (BoundStatement.check_withBatch hb).trans hcheck
    have hrecords : (base.withBatch c).records = .ok c := Parameters.records_withBatch
    have happly := Graph.apply_upsertLinks now g u hrecords
    have hsame : (cs.map fun d => total (d.map (g.pairCount u (base.withBatch d)))) =
        cs.map fun d => total (d.map ((g.putRows now (base.withBatch c)
          (g.linkWrites u (base.withBatch c) c)).pairCount u (base.withBatch d))) :=
      List.map_congr_left fun d _ => by rw [Graph.pairCount_congr Graph.nodes_putRows]
    refine Graph.execute_cons_eq_ok_iff.2 ⟨hfirst, _, _, _, happly, ih _, ?_⟩
    rw [List.map_cons, hsame]

/-- Batches of standalone edges run in one transaction once their parameters are bound. -/
theorem runLinkBatches_eq (config : LoaderConfig) (now : Int) (records : List Record) (g : Graph)
    (hcheck : BoundStatement.check ⟨.upsertLinks u, baseParameters params tag⟩ = .ok ()) :
    ∃ done, runBatches config now [.upsertLinks u] records params tag g =
        (.ok done, linkBatches now u (baseParameters params tag) g
          (chunks config.batchSize records)) ∧
      total (done.map (·.2)) =
        linkCount u (baseParameters params tag) g (chunks config.batchSize records) := by
  have hrun := execute_linkBatches now g (chunks config.batchSize records)
    contains_baseParameters hcheck
  refine ⟨_, runBatches_of_execute (List.forall_mem_singleton.2 hcheck) hrun, ?_⟩
  rw [List.map_snd_zip (by simp [bindBatch])]
  rfl

/-- A load of standalone edges creates its indexes and runs its batches, unless a parameter has no
value. -/
theorem links_eq (config : LoaderConfig) (now : Int) (records : List Record) (g : Graph)
    (hs : e.source = some source) : Load.links config now e records params tag g =
      match BoundStatement.check ⟨.upsertLinks ⟨source, e⟩, baseParameters params tag⟩ with
      | .error err => (.error err, linkIndexed ⟨source, e⟩ g)
      | .ok _ => (.ok ⟨records.length, 0, records.length, linkCount ⟨source, e⟩
            (baseParameters params tag) g (chunks config.batchSize records)⟩,
          linkBatches now ⟨source, e⟩ (baseParameters params tag) (linkIndexed ⟨source, e⟩ g)
            (chunks config.batchSize records)) := by
  obtain ⟨n, hindexes⟩ := ensureLinkIndexes_eq now g hs
  have hstatement : GraphM.ofExcept GraphError.schema e.loadStatement
      (linkIndexed ⟨source, e⟩ g) =
        (.ok (.upsertLinks ⟨source, e⟩), linkIndexed ⟨source, e⟩ g) := by
    simp only [EdgeSchema.loadStatement, EdgeSchema.linkSource, hs]
    rfl
  simp only [Load.links]
  rw [GraphM.bind_of_ok hindexes, GraphM.bind_of_ok hstatement]
  cases hcheck : BoundStatement.check ⟨.upsertLinks ⟨source, e⟩, baseParameters params tag⟩ with
  | error err =>
    rw [GraphM.bind_of_error (e := err) (h := linkIndexed ⟨source, e⟩ g)]
    simp only [runBatches, List.forM, hcheck]
    exact GraphM.bind_of_error rfl
  | ok _ =>
    obtain ⟨done, hdone, hcount⟩ :=
      runLinkBatches_eq config now records (linkIndexed ⟨source, e⟩ g) hcheck
    rw [GraphM.bind_of_ok hdone, hcount]
    rfl

theorem linkBatches_of_links (hs : e.source = some source)
    (hload : Load.links config now e records params tag g = (.ok summary, h)) :
    BoundStatement.check ⟨.upsertLinks ⟨source, e⟩, baseParameters params tag⟩ = .ok () ∧
      h = linkBatches now ⟨source, e⟩ (baseParameters params tag) (linkIndexed ⟨source, e⟩ g)
        (chunks config.batchSize records) := by
  rw [links_eq config now records g hs] at hload
  split at hload
  · cases hload
  · next hcheck =>
    cases hload
    exact ⟨hcheck, rfl⟩

end Load

namespace LinkUpsert

/-- No property is read from the list of records that a batch is bound to. -/
def ReadsNoBatch (u : LinkUpsert) : Prop :=
  ∀ r ∈ (Statement.upsertLinks u).references, r.source = .batchParameter → r.name ≠ Names.batch

instance (u : LinkUpsert) : Decidable u.ReadsNoBatch :=
  inferInstanceAs (Decidable (∀ r ∈ (Statement.upsertLinks u).references, _ → _))

variable {u : LinkUpsert} {g : Graph} {now : Int} {base : Parameters} {batch records : List Record}
  {cs : List (List Record)} {ws : List EdgeWrite}

theorem resolve_withBatch (hu : u.ReadsNoBatch) {entry : String × PropertyRef}
    (hm : entry ∈ u.source.matcher.mapping ++ u.edge.target.matcher.mapping ++
      u.edge.properties.mapping) (record : Record) :
    entry.2.resolve record (base.withBatch batch) = entry.2.resolve record base := by
  refine NodeSchema.resolve_withBatch (hu entry.2 ?_) record
  rw [Statement.references, Statement.located, Statement.written, Mapping.references,
    Mapping.references, Mapping.references, ← List.map_append, ← List.map_append]
  exact List.mem_map_of_mem hm

theorem linkRows_withBatch (hu : u.ReadsNoBatch) :
    g.linkRows u (base.withBatch batch) = g.linkRows u base := by
  funext record
  have hsource : g.matching record (base.withBatch batch) u.source =
      g.matching record base u.source := Graph.matching_of_resolve fun _ hm =>
    resolve_withBatch hu (List.mem_append_left _ (List.mem_append_left _ hm)) record
  have htarget : g.matching record (base.withBatch batch) u.edge.target =
      g.matching record base u.edge.target := Graph.matching_of_resolve fun _ hm =>
    resolve_withBatch hu (List.mem_append_left _ (List.mem_append_right _ hm)) record
  simp only [Graph.linkRows, hsource, htarget]

theorem linkWrites_withBatch (hu : u.ReadsNoBatch) :
    g.linkWrites u (base.withBatch batch) records = g.linkWrites u base records := by
  simp only [Graph.linkWrites, linkRows_withBatch hu]

theorem putRows_withBatch (hu : u.ReadsNoBatch) (hws : ∀ w ∈ ws, w.schema = u.edge) :
    g.putRows now (base.withBatch batch) ws = g.putRows now base ws := by
  refine List.foldl_ext _ _ _ fun h w hw => ?_
  rw [Graph.putEdge_eq_touchEdge, Graph.putEdge_eq_touchEdge, hws w hw,
    Mapping.assignAll_of_resolve fun _ hm =>
      resolve_withBatch hu (List.mem_append_right _ hm) w.record]

/-- If no reference reads the batch, batches write what their records write in one. -/
theorem linkBatches_eq (hu : u.ReadsNoBatch) : Load.linkBatches now u base g cs =
    g.putRows now base (g.linkWrites u base cs.flatten) := by
  induction cs generalizing g with
  | nil => rfl
  | cons c cs ih =>
    have hfirst : g.putRows now (base.withBatch c) (g.linkWrites u (base.withBatch c) c) =
        g.putRows now base (g.linkWrites u base c) := by
      rw [linkWrites_withBatch hu, putRows_withBatch hu fun w hw => (Graph.mem_linkWrites.1 hw).1]
    rw [Load.linkBatches, List.foldl_cons, hfirst, List.flatten_cons, Graph.linkWrites_append,
      Graph.putRows_append]
    exact ih.trans (by rw [Graph.linkWrites_congr Graph.nodes_putRows])

theorem linkCount_eq (hu : u.ReadsNoBatch) : Load.linkCount u base g cs =
    total (cs.flatten.map (g.pairCount u base)) := by
  have hcount : ∀ c, g.pairCount u (base.withBatch c) = g.pairCount u base := fun c => by
    funext record
    rw [← Graph.length_linkRows, linkRows_withBatch hu, Graph.length_linkRows]
  simp only [Load.linkCount, hcount, List.map_flatten, List.sum_flatten, List.map_map]
  rfl

end LinkUpsert

/-- What records leave as standalone edges. -/
structure Graph.Linked (now : Int) (u : LinkUpsert) (params : Parameters) (records : List Record)
    (g h : Graph) : Prop where
  nodes : h.nodes = g.nodes
  /-- Edges from before keep their place, type and ends. -/
  kept : ∀ {key e}, g.edges.find? key = some e →
    ∃ x, h.edges.find? key = some x ∧ x.joint = e.joint
  /-- Edges that no record is about are as before. -/
  others : ∀ {key e}, (e.edgeType = u.edge.edgeType →
    ∀ r ∈ records, ¬ g.Pairs u params r e.start e.finish) →
      (h.edges.find? key = some e ↔ g.edges.find? key = some e)
  /-- Two nodes are joined if they were, or if a record pairs them. -/
  joined : ∀ {start finish},
    (∃ key x, h.edges.find? key = some x ∧ x.joint = (u.edge.edgeType, start, finish)) ↔
      (∃ key x, g.edges.find? key = some x ∧ x.joint = (u.edge.edgeType, start, finish)) ∨
        ∃ r ∈ records, g.Pairs u params r start finish
  /-- No two edges of the type join the same nodes. -/
  single : ∀ {k l x y}, h.edges.find? k = some x → h.edges.find? l = some y →
    x.joint = y.joint → k = l
  /-- The last record that pairs two nodes tells what is declared, and the rest is as before. -/
  written : ∀ {before r after start finish}, records = before ++ r :: after →
    g.Pairs u params r start finish → (∀ s ∈ after, ¬ g.Pairs u params s start finish) →
      ∃ key x, h.edges.find? key = some x ∧ x.joint = (u.edge.edgeType, start, finish) ∧
        ∀ name, x.properties.find? name = match u.edge.properties.mapping.ref? name with
          | some ref => ref.resolve r params
          | none => ((g.between (u.edge.edgeType, start, finish)).getD (createdEdge now)).find? name

namespace Graph

variable {g h : Graph} {now : Int} {u : LinkUpsert} {params : Parameters} {records : List Record}

theorem linked_putRows (now : Int) (hg : g.WellFormed) :
    Linked now u params records g (g.putRows now params (g.linkWrites u params records)) := by
  have hpairs : ∀ r ∈ records, ∀ start finish, g.Pairs u params r start finish ↔
      ∃ row ∈ g.linkRows u params r, u.edge.direction.orient row.1 row.2 = (start, finish) :=
    fun r _ start finish => pairs_iff
  have hends : ∀ r ∈ records, ∀ row ∈ g.linkRows u params r, g.HasEnds row :=
    fun r _ row hrow => hasEnds_of_mem_linkRows hrow
  have hjoined : Joined now u.edge params records (g.Pairs u params) g
      (g.putRows now params (g.linkWrites u params records)) :=
    joined_putRows hpairs now params hg hends
  refine ⟨hjoined.nodes, hjoined.kept, hjoined.others, ?_, hjoined.single, ?_⟩
  · intro start finish
    exact hjoined.joined.trans (or_congr_right (and_iff_right rfl))
  · intro before r after start finish hrecords hlast hafter
    obtain ⟨key, x, hx, hjoint, hfind, -⟩ := hjoined.written hrecords hlast hafter
    exact ⟨key, x, hx, hjoint, hfind⟩

end Graph

namespace Load

variable {g h : Graph} {now tag : Int} {e : EdgeSchema} {u : LinkUpsert} {source : Endpoint}
  {params base : Parameters} {records : List Record}

theorem wellFormed_linkIndexed (hg : g.WellFormed) : (linkIndexed u g).WellFormed :=
  hg.setIndexes _

theorem linkIndexed_of_indexes (hi : h.indexes = (linkIndexed u g).indexes) :
    linkIndexed u h = h := by
  refine Graph.ext_parts rfl rfl ?_ rfl
  simp only [linkIndexed, Graph.withIndexes] at hi ⊢
  rw [hi, SortedSet.addAll_addAll]

/-- A load passes its check if the parameters that its properties are read from are given; the tag
and the batch are bound by the load. -/
theorem check_link (tag : Int) (hs : e.source = some source)
    (hbound : ∀ r ∈ (Statement.upsertLinks ⟨source, e⟩).references, r.source = .batchParameter →
      r.name = Names.loadTag ∨ params.contains r.name = true) :
    BoundStatement.check ⟨.upsertLinks ⟨source, e⟩, baseParameters params tag⟩ = .ok () := by
  have hload : e.loadStatement = .ok (.upsertLinks ⟨source, e⟩) := by
    simp only [EdgeSchema.loadStatement, EdgeSchema.linkSource, hs]
    rfl
  refine BoundStatement.check_eq_ok_iff.2 fun name hname => contains_baseParameters_iff.2 ?_
  rcases Statement.mem_reads_iff.1 ((Statement.mem_parameters_linkLoad hload).1 hname) with
    hfixed | ⟨r, hr, hsource, rfl⟩
  · exact .inr (.inr (List.mem_singleton.1 hfixed))
  · rcases hbound r hr hsource with htag | hgiven
    · exact .inr (.inl htag)
    · exact .inl hgiven

/-- What a load leaves, if its references are bound and none of them reads the batch. -/
theorem links_eq_putRows (config : LoaderConfig) (now : Int) (records : List Record) (g : Graph)
    (hs : e.source = some source) (hu : (⟨source, e⟩ : LinkUpsert).ReadsNoBatch)
    (hcheck : BoundStatement.check ⟨.upsertLinks ⟨source, e⟩, baseParameters params tag⟩ = .ok ()) :
    Load.links config now e records params tag g =
      (.ok ⟨records.length, 0, records.length,
        total (records.map (g.pairCount ⟨source, e⟩ (baseParameters params tag)))⟩,
      (linkIndexed ⟨source, e⟩ g).putRows now (baseParameters params tag)
        (g.linkWrites ⟨source, e⟩ (baseParameters params tag) records)) := by
  rw [links_eq config now records g hs, hcheck]
  simp only [LinkUpsert.linkBatches_eq hu, LinkUpsert.linkCount_eq hu, flatten_chunks]
  rfl

theorem linked_of_links {config : LoaderConfig} {summary : LoadSummary} (hg : g.WellFormed)
    (hs : e.source = some source) (hu : (⟨source, e⟩ : LinkUpsert).ReadsNoBatch)
    (hload : Load.links config now e records params tag g = (.ok summary, h)) :
    Graph.Linked now ⟨source, e⟩ (baseParameters params tag) records g h := by
  obtain ⟨hcheck, -⟩ := linkBatches_of_links hs hload
  cases hload.symm.trans (links_eq_putRows config now records g hs hu hcheck)
  have hlinked : Graph.Linked now ⟨source, e⟩ (baseParameters params tag) records _ _ :=
    Graph.linked_putRows now (wellFormed_linkIndexed (u := ⟨source, e⟩) hg)
  exact ⟨hlinked.nodes, hlinked.kept, hlinked.others, hlinked.joined, hlinked.single,
    hlinked.written⟩

/-- Standalone edges of records are loaded exactly, with the same outcome whatever the size of the
batches, and a second load of them finds nothing to do. -/
theorem links_exact (now tag : Int) (params : Parameters) (records : List Record)
    (hg : g.WellFormed) (hs : e.source = some source) (hu : (⟨source, e⟩ : LinkUpsert).ReadsNoBatch)
    (hbound : ∀ r ∈ (Statement.upsertLinks ⟨source, e⟩).references, r.source = .batchParameter →
      r.name = Names.loadTag ∨ params.contains r.name = true) :
    ∃ summary h,
      summary = ⟨records.length, 0, records.length,
        total (records.map (g.pairCount ⟨source, e⟩ (baseParameters params tag)))⟩ ∧
      (∀ config, Load.links config now e records params tag g = (.ok summary, h)) ∧
      Graph.Linked now ⟨source, e⟩ (baseParameters params tag) records g h ∧
      ∀ config later, Load.links config later e records params tag h = (.ok summary, h) := by
  have hcheck := check_link tag hs hbound
  have hlinks := fun config => links_eq_putRows config now records g hs hu hcheck
  refine ⟨_, _, rfl, hlinks, linked_of_links hg hs hu (hlinks {}), fun config later => ?_⟩
  have hends : ∀ w ∈ g.linkWrites ⟨source, e⟩ (baseParameters params tag) records,
      (linkIndexed ⟨source, e⟩ g).HasEnds w.row := fun w hw => Graph.hasEnds_of_mem_linkWrites hw
  rw [links_eq_putRows config later records _ hs hu hcheck,
    linkIndexed_of_indexes Graph.indexes_putRows, Graph.pairCount_congr Graph.nodes_putRows,
    Graph.linkWrites_congr Graph.nodes_putRows]
  exact congrArg (Prod.mk _) (Graph.putRows_putRows later (wellFormed_linkIndexed hg) hends)

/-- A bucket is granted a tag, once. -/
theorem links_exact_of_sample : ∃ summary h, summary = ⟨1, 0, 1, 1⟩ ∧
    (∀ config, Load.links config 5 Sample.granted [Sample.grant] Sample.account 2 Sample.apart =
      (.ok summary, h)) ∧
    (∃ key x, h.edges.find? key = some x ∧ x.joint = ("GRANTED", 1, 2)) ∧
    ∀ config later, Load.links config later Sample.granted [Sample.grant] Sample.account 2 h =
      (.ok summary, h) := by
  obtain ⟨summary, h, hsummary, hload, hlinked, hagain⟩ := links_exact 5 2 Sample.account
    [Sample.grant] Sample.reachable_apart.wellFormed (e := Sample.granted) rfl (by decide)
    (by decide)
  have hcount : summary = ⟨1, 0, 1, 1⟩ := hsummary.trans (by decide)
  refine ⟨summary, h, hcount, hload, hlinked.joined.2 (.inr ?_), hagain⟩
  exact ⟨_, List.mem_singleton_self _, 1, by decide, 2, by decide, rfl⟩

end Load

end GraphSync
