import GraphSync.Proofs.Cleanup.Completion
import GraphSync.Proofs.Load.Links
import GraphSync.Proofs.Load.Marked

/-! A load of standalone edges followed by their cleanup under its tag: what the load wrote stays,
and of the rest the owner's stale edges go. -/
namespace GraphSync

namespace Graph

variable {g : Graph} {now : Int} {params : Parameters} {ws : List EdgeWrite} {w : EdgeWrite}
  {key : Nat}

theorem find?_putRows_of_not_mem (hk : key ∉ g.joinRows now params ws) :
    (g.putRows now params ws).edges.find? key = g.edges.find? key := by
  induction ws generalizing g with
  | nil => rfl
  | cons w ws ih =>
    rw [joinRows, List.mem_cons, not_or] at hk
    obtain ⟨e, hput⟩ := find?_putEdge now params g w
    rw [putRows_cons, ih hk.2, hput, if_neg hk.1]

/-- What a row finds or creates is the edge at its joint. -/
theorem eq_located_iff (now : Int) (params : Parameters) (hg : g.WellFormed)
    (hw : g.HasEnds w.row) :
    key = (g.locateEdge now w.schema.edgeType w.ends.1 w.ends.2).2 ↔
      ∃ x, (g.putEdge now params w).edges.find? key = some x ∧ x.joint = w.joint := by
  obtain ⟨place, rfl, -, hfind⟩ := find?_edges_putEdge now params hg w
  have hput : (g.putEdge now params w).WellFormed := hg.putEdge hw
  constructor
  · rintro rfl
    exact ⟨_, (hfind _).trans (if_pos rfl), rfl⟩
  · rintro ⟨x, hx, hjoint⟩
    exact hput.eq_of_joint hx ((hfind _).trans (if_pos rfl)) hjoint

/-- The edges that rows find or create are those whose type and ends a row has. -/
theorem mem_joinRows_iff (hg : g.WellFormed) (hws : ∀ w ∈ ws, g.HasEnds w.row) :
    key ∈ g.joinRows now params ws ↔ ∃ x, (g.putRows now params ws).edges.find? key = some x ∧
      ∃ w ∈ ws, w.joint = x.joint := by
  induction ws generalizing g with
  | nil => simp [joinRows]
  | cons w ws ih =>
    obtain ⟨hw, hrest⟩ := List.forall_mem_cons.1 hws
    have hput : (g.putEdge now params w).WellFormed := hg.putEdge hw
    have hnext : ∀ v ∈ ws, (g.putEdge now params w).HasEnds v.row := fun v hv =>
      (hasEnds_congr nodes_writeEdge).2 (hrest v hv)
    have hlast : ((g.putEdge now params w).putRows now params ws).WellFormed := hput.putRows hnext
    rw [joinRows, List.mem_cons, eq_located_iff now params hg hw, ih hput hnext, putRows_cons]
    constructor
    · rintro (⟨x, hx, hjoint⟩ | ⟨x, hx, v, hv, hjoint⟩)
      · obtain ⟨y, hy, hsame⟩ := exists_of_putRows hput hnext now params hx
        exact ⟨y, hy, w, List.mem_cons_self, (hsame.trans hjoint).symm⟩
      · exact ⟨x, hx, v, List.mem_cons_of_mem _ hv, hjoint⟩
    · rintro ⟨x, hx, v, hv, hjoint⟩
      rcases List.mem_cons.1 hv with rfl | hv
      -- the row's edge is in its place after the row, and stays there
      · obtain ⟨y, hy, hsame⟩ := (eq_located_iff now params hg hw).1 rfl
        obtain ⟨z, hz, hkept⟩ := exists_of_putRows hput hnext now params hy
        have hkey := hlast.eq_of_joint hx hz (hjoint.symm.trans (hkept.trans hsame).symm)
        exact .inl ⟨y, hkey ▸ hy, hsame⟩
      · exact .inr ⟨x, hx, v, hv, hjoint⟩

end Graph

namespace Load

/-- The edges that batches of standalone edges write: those that a row of a record finds or
creates. -/
def linksWritten (now : Int) (u : LinkUpsert) (base : Parameters) :
    Graph → List (List Record) → List Nat
  | _, [] => []
  | g, c :: cs =>
    let ws := g.linkWrites u (base.withBatch c) c
    g.joinRows now (base.withBatch c) ws ++
      linksWritten now u base (g.putRows now (base.withBatch c) ws) cs

/-- The edges that a load of standalone edges writes. -/
def linked (config : LoaderConfig) (now : Int) (u : LinkUpsert) (records : List Record)
    (params : Parameters) (tag : Int) (g : Graph) : List Nat :=
  linksWritten now u (baseParameters params tag) (linkIndexed u g)
    (chunks config.batchSize records)

variable {g h : Graph} {now tag : Int} {u : LinkUpsert} {params base : Parameters} {key : Nat}
  {cs : List (List Record)} {config : LoaderConfig} {e : EdgeSchema} {source : Endpoint}
  {records : List Record} {summary : LoadSummary}

theorem find?_linkBatches_of_not_mem (hk : key ∉ linksWritten now u base g cs) :
    (linkBatches now u base g cs).edges.find? key = g.edges.find? key := by
  induction cs generalizing g with
  | nil => rfl
  | cons c cs ih =>
    rw [linksWritten, List.mem_append, not_or] at hk
    exact (ih hk.2).trans (Graph.find?_putRows_of_not_mem hk.1)

theorem marksEdges_linkBatches (hu : u.edge.MarksLoad) :
    Graph.MarksEdges tag g (linkBatches now u (baseParameters params tag) g cs)
      (linksWritten now u (baseParameters params tag) g cs) := by
  induction cs generalizing g with
  | nil => exact .of_edges_eq rfl
  | cons c cs ih =>
    refine (Graph.marksEdges_joinRows now (fun w hw => ?_) g).trans ih
    rw [(Graph.mem_linkWrites.1 hw).1]
    exact hu

theorem wellFormed_linkBatches (hg : g.WellFormed) : (linkBatches now u base g cs).WellFormed := by
  induction cs generalizing g with
  | nil => exact hg
  | cons c cs ih => exact ih (hg.putRows fun w hw => Graph.hasEnds_of_mem_linkWrites hw)

theorem exists_of_linkBatches (now : Int) (u : LinkUpsert) (base : Parameters)
    (cs : List (List Record)) (hg : g.WellFormed) {x : Edge} (hx : g.edges.find? key = some x) :
    ∃ y, (linkBatches now u base g cs).edges.find? key = some y ∧ y.joint = x.joint := by
  induction cs generalizing g x with
  | nil => exact ⟨x, hx, rfl⟩
  | cons c cs ih =>
    have hends : ∀ w ∈ g.linkWrites u (base.withBatch c) c, g.HasEnds w.row := fun w hw =>
      Graph.hasEnds_of_mem_linkWrites hw
    obtain ⟨y, hy, hjoint⟩ := Graph.exists_of_putRows hg hends now (base.withBatch c) hx
    obtain ⟨z, hz, hlast⟩ := ih (hg.putRows hends) hy
    exact ⟨z, hz, hlast.trans hjoint⟩

/-- The edges that batches write are those whose type and ends a record of a batch pairs. -/
theorem mem_linksWritten_iff (hg : g.WellFormed) : key ∈ linksWritten now u base g cs ↔
    ∃ x, (linkBatches now u base g cs).edges.find? key = some x ∧
      x.edgeType = u.edge.edgeType ∧ ∃ c ∈ cs, ∃ r ∈ c,
        g.Pairs u (base.withBatch c) r x.start x.finish := by
  induction cs generalizing g with
  | nil => simp [linksWritten]
  | cons c cs ih =>
    have hends : ∀ w ∈ g.linkWrites u (base.withBatch c) c, g.HasEnds w.row := fun w hw =>
      Graph.hasEnds_of_mem_linkWrites hw
    have hput :
        (g.putRows now (base.withBatch c) (g.linkWrites u (base.withBatch c) c)).WellFormed :=
      hg.putRows hends
    have hjoint : ∀ {x : Edge}, x.edgeType = u.edge.edgeType →
        x.joint = (u.edge.edgeType, x.start, x.finish) := fun ht => by rw [Edge.joint, ht]
    rw [linksWritten, List.mem_append, ih hput, Graph.mem_joinRows_iff hg hends]
    simp only [Graph.pairs_congr Graph.nodes_putRows, List.exists_mem_cons_iff]
    constructor
    · rintro (⟨x, hx, w, hw, hj⟩ | ⟨x, hx, ht, hpairs⟩)
      · obtain ⟨y, hy, hsame⟩ := exists_of_linkBatches now u base cs hput hx
        have hrow : w.joint = y.joint := hj.trans hsame.symm
        have ht : y.edgeType = u.edge.edgeType := by
          rw [← (Graph.mem_linkWrites.1 hw).1]
          exact (congrArg Prod.fst hrow).symm
        exact ⟨y, hy, ht, .inl (Graph.exists_linkWrite_iff.1 ⟨w, hw, hrow.trans (hjoint ht)⟩)⟩
      · exact ⟨x, hx, ht, .inr hpairs⟩
    · rintro ⟨x, hx, ht, hpairs | hpairs⟩
      -- the edge that the pair's row wrote is the one that is there at the end
      · obtain ⟨w, hw, hj⟩ := Graph.exists_linkWrite_iff.2 hpairs
        obtain ⟨k, y, hy, hyj⟩ := Graph.isSome_between_iff.1
          ((Graph.isSome_between_putRows hg hends now (base.withBatch c)).2 (.inr ⟨w, hw, rfl⟩))
        obtain ⟨z, hz, hsame⟩ := exists_of_linkBatches now u base cs hput hy
        have hkey : key = k := (wellFormed_linkBatches hput).eq_of_joint hx hz
          ((hjoint ht).trans (hj.symm.trans (hsame.trans hyj).symm))
        exact .inl ⟨y, hkey ▸ hy, w, hw, hyj.symm⟩
      · exact .inr ⟨x, hx, ht, hpairs⟩

/-- What a load of standalone edges does to edges: it marks those that it writes, and leaves the
others. If the graph is well-formed, it writes those whose type and ends a record pairs. -/
theorem edges_of_links (hs : e.source = some source) (hm : e.MarksLoad)
    (hload : Load.links config now e records params tag g = (.ok summary, h)) :
    h.nodes = g.nodes ∧
      (∀ key ∉ linked config now ⟨source, e⟩ records params tag g,
        h.edges.find? key = g.edges.find? key) ∧
      (∀ key ∈ linked config now ⟨source, e⟩ records params tag g, ∃ x,
        h.edges.find? key = some x ∧ x.properties.find? Names.mark = some (.int tag)) ∧
      (g.WellFormed → ∀ key, key ∈ linked config now ⟨source, e⟩ records params tag g ↔
        ∃ x, h.edges.find? key = some x ∧ x.edgeType = e.edgeType ∧
          ∃ c ∈ chunks config.batchSize records, ∃ r ∈ c,
            g.Pairs ⟨source, e⟩ ((baseParameters params tag).withBatch c) r x.start x.finish) := by
  obtain ⟨-, rfl⟩ := linkBatches_of_links hs hload
  exact ⟨nodes_linkBatches, fun _ hk => find?_linkBatches_of_not_mem hk,
    (marksEdges_linkBatches hm).marked,
    fun hg _ => mem_linksWritten_iff (wellFormed_linkIndexed hg)⟩

end Load

namespace EdgeSchema

/-- The value of a property that tells the owner; no record has a part in it. -/
def ownerValue? (e : EdgeSchema) (params : Parameters) (property : String) : Option Json :=
  (e.properties.mapping.ref? property).bind (·.resolve .empty params)

/-- An edge of the schema's type between a node of the source's label and one of the target's, in
the direction of the schema, on behalf of an owner. -/
structure Attributed (e : EdgeSchema) (source : Endpoint) (label id : Json) (g : Graph)
    (x : Edge) : Prop where
  edgeType : x.edgeType = e.edgeType
  ends : ∃ a b, e.direction.orient a b = (x.start, x.finish) ∧
    g.hasLabel a source.label = true ∧ g.hasLabel b e.target.label = true
  ownerLabel : ∃ v, x.properties.find? Names.ownerLabel = some v ∧ v.agrees label = true
  ownerId : ∃ v, x.properties.find? Names.ownerId = some v ∧ v.agrees id = true

variable {e : EdgeSchema} {source : Endpoint} {ownerLabel ownerId : PropertyRef} {label id : Json}
  {g h : Graph} {x : Edge} {params : Parameters} {config : LoaderConfig} {now tag : Int}
  {records : List Record} {common : CommonParameters} {summary : LoadSummary}

theorem accepts_exact_iff {actual : Option Json} {v : Json} :
    MatchMode.exact.accepts actual (some v) = true ↔
      ∃ w, actual = some w ∧ w.agrees v = true := by
  cases actual <;> simp [MatchMode.accepts, MatchMode.holds]

theorem isAttributed_iff (hlabel : ownerLabel.resolve .empty params = some label)
    (hid : ownerId.resolve .empty params = some id) :
    g.isAttributed params ⟨source.label, e.pattern, ownerLabel, ownerId⟩ x = true ↔
      e.Attributed source label id g x := by
  simp only [Graph.isAttributed, Graph.hasPattern, pattern, hlabel, hid, Bool.and_eq_true,
    accepts_exact_iff, beq_iff_eq]
  constructor
  · rintro ⟨⟨⟨⟨ht, hsource⟩, htarget⟩, hl⟩, hi⟩
    exact ⟨ht, ⟨_, _, Direction.orient_eq_iff.2 rfl, hsource, htarget⟩, hl, hi⟩
  · rintro ⟨ht, ⟨a, b, hends, hsource, htarget⟩, hl, hi⟩
    have hswept : x.ends e.direction = (a, b) := Direction.orient_eq_iff.1 hends
    rw [hswept]
    exact ⟨⟨⟨⟨ht, hsource⟩, htarget⟩, hl⟩, hi⟩

theorem contains_of_mem_batchNames {r : PropertyRef} {name : String}
    (hr : r.resolve .empty params = some label) (hname : name ∈ r.batchNames) :
    params.contains name = true := by
  obtain ⟨hsource, rfl⟩ := PropertyRef.mem_batchNames.1 hname
  rw [PropertyRef.resolve, PropertyRef.find?, hsource] at hr
  exact SortedMap.contains_eq_true_iff.2 ⟨label, (Json.present_eq_some_iff.1 hr).1⟩

/-- The cleanup of an owner's standalone edges runs once the owner is told, and drops the stale ones
among them. -/
theorem exists_run_linkCleanup (hs : e.source = some source)
    (hlabel : e.ownerValue? common.bound Names.ownerLabel = some label)
    (hid : e.ownerValue? common.bound Names.ownerId = some id) (now : Int) (g : Graph) :
    ∃ job n h p, Job.linkCleanup e common = .ok job ∧ job.run now g = (.ok n, h) ∧
      h = g.dropEdges (.int common.tag) p ∧
        ∀ x, p x = true ↔ e.Attributed source label id g x := by
  obtain ⟨ownerLabel, hl, hlabel⟩ := Option.bind_eq_some_iff.1 hlabel
  obtain ⟨ownerId, hi, hid⟩ := Option.bind_eq_some_iff.1 hid
  obtain ⟨_, _, _, hs', hl', hi', hstatement⟩ :=
    e.exists_cleanupStatement (Option.isSome_iff_exists.2 ⟨source, hs⟩)
  cases hs.symm.trans hs'
  cases hl.symm.trans hl'
  cases hi.symm.trans hi'
  have hbound : ∀ name ∈ (Statement.sweepLinks
      ⟨source.label, e.pattern, ownerLabel, ownerId⟩).parameters,
        common.bound.contains name = true := by
    intro name hname
    rcases (mem_parameters_sweepLinks hs hl hi).1 hname with rfl | hname | hname | rfl
    · exact SortedMap.contains_eq_true_iff.2 ⟨_, common.find?_sweepTag_bound⟩
    · exact contains_of_mem_batchNames hlabel hname
    · exact contains_of_mem_batchNames hid hname
    · exact SortedMap.contains_eq_true_iff.2 ⟨_, common.find?_pageSize_bound⟩
  have hcheck : (Job.ofSweeps ("Cleanup " ++ e.edgeType ++ " match-links")
      [.sweepLinks ⟨source.label, e.pattern, ownerLabel, ownerId⟩] common).check = .ok () :=
    Job.check_eq_ok_iff.2 (List.forall_mem_singleton.2 (BoundStatement.check_eq_ok_iff.2 hbound))
  obtain ⟨n, h, hrun, hsweep⟩ :=
    Job.exists_run_ofSweeps (List.forall_mem_singleton.2 rfl) hcheck now g
  refine ⟨_, n, h, _, ?_, hrun, ?_, fun x => isAttributed_iff hlabel hid⟩
  · rw [Job.linkCleanup, hstatement]
    rfl
  · cases hsweep with
    | cons first rest =>
      cases rest
      exact first.eq_dropEdges (Sweep.steady_ofEdges fun _ _ _ hc => hc)

end EdgeSchema

namespace Load

variable {e : EdgeSchema} {source : Endpoint} {label id : Json} {g h : Graph}
  {params : Parameters} {config : LoaderConfig} {now tag : Int} {records : List Record}
  {common : CommonParameters} {summary : LoadSummary}

/-- After a load of standalone edges and the cleanup of their owner under one tag, an edge is gone
exactly if it is one of the schema's that belongs to the owner, and the load did not write it, nor
was it marked with the tag. Whatever belongs to other owners stays, and all nodes do. -/
theorem links_then_cleanup (later : Int) (hs : e.source = some source) (hm : e.MarksLoad)
    (htag : -Word.signedBound ≤ tag ∧ tag < Word.signedBound) (hcommon : common.tag = tag)
    (hlabel : e.ownerValue? common.bound Names.ownerLabel = some label)
    (hid : e.ownerValue? common.bound Names.ownerId = some id)
    (hload : Load.links config now e records params tag g = (.ok summary, h)) :
    ∃ job n i, Job.linkCleanup e common = .ok job ∧ job.run later h = (.ok n, i) ∧
      (∀ key x, h.edges.find? key = some x →
        (i.edges.find? key = none ↔ e.Attributed source label id h x ∧
          key ∉ linked config now ⟨source, e⟩ records params tag g ∧
          ∀ mark, x.properties.find? Names.mark = some mark → mark.agrees (.int tag) = false)) ∧
      (∀ key x, i.edges.find? key = some x → h.edges.find? key = some x) ∧
      (∀ key ∉ linked config now ⟨source, e⟩ records params tag g,
        h.edges.find? key = g.edges.find? key) ∧
      (g.WellFormed → ∀ key, key ∈ linked config now ⟨source, e⟩ records params tag g ↔
        ∃ x, h.edges.find? key = some x ∧ x.edgeType = e.edgeType ∧
          ∃ c ∈ chunks config.batchSize records, ∃ r ∈ c,
            g.Pairs ⟨source, e⟩ ((baseParameters params tag).withBatch c) r x.start x.finish) ∧
      h.nodes = g.nodes ∧ i.nodes = h.nodes := by
  subst hcommon
  obtain ⟨hnodes, hframe, hmarked, hpairs⟩ := edges_of_links hs hm hload
  obtain ⟨job, n, i, p, hjob, hrun, rfl, hp⟩ :=
    EdgeSchema.exists_run_linkCleanup hs hlabel hid later h
  refine ⟨job, n, _, hjob, hrun, fun key x hx => ?_, fun key x hx => (Graph.find?_dropEdges.1 hx).1,
    hframe, hpairs, hnodes, rfl⟩
  have hgone : (h.dropEdges (.int common.tag) p).edges.find? key = none ↔
      x.properties.isStale (.int common.tag) = true ∧ p x = true := by
    rw [← Option.not_isSome_iff_eq_none, Option.isSome_iff_exists]
    simp only [Graph.find?_dropEdges, hx, Option.some.injEq, exists_eq_left', not_not]
  have hfresh : key ∈ linked config now ⟨source, e⟩ records params common.tag g →
      x.properties.isStale (.int common.tag) = false := by
    intro hk
    obtain ⟨y, hy, hmark⟩ := hmarked key hk
    cases hx.symm.trans hy
    exact Record.not_isStale_of_tagged htag hmark
  rw [hgone, hp, Record.isStale_iff, and_comm]
  refine and_congr_right fun _ => (and_iff_right_of_imp fun hold hk => ?_).symm
  exact Bool.eq_false_iff.1 (hfresh hk) (Record.isStale_iff.2 hold)

/-- A bucket was granted a tag for an account; as this is not reported again, the edge goes. -/
theorem links_then_cleanup_of_sample : ∃ summary g again h job n i key x,
    Load.links {} 5 Sample.granted [Sample.grant] Sample.account 1 Sample.apart =
      (.ok summary, g) ∧
    Load.links {} 7 Sample.granted [] Sample.account 2 g = (.ok again, h) ∧
    Job.linkCleanup Sample.granted Sample.accountCleanup = .ok job ∧
    job.run 9 h = (.ok n, i) ∧ h.edges.find? key = some x ∧ x.joint = ("GRANTED", 1, 2) ∧
    i.edges.find? key = none := by
  have hsource : Sample.granted.source = some ⟨"Bucket", _⟩ := rfl
  have hcheck : ∀ tag, BoundStatement.check
      ⟨.upsertLinks ⟨_, Sample.granted⟩, baseParameters Sample.account tag⟩ = .ok () := fun tag =>
    check_link tag hsource (by decide)
  have hfirst := links_eq_putRows {} 5 [Sample.grant] Sample.apart hsource (by decide) (hcheck 1)
  have hagain := fun g => links_eq_putRows {} 7 [] g hsource (by decide) (hcheck 2)
  have hlinked := linked_of_links Sample.reachable_apart.wellFormed hsource (by decide) hfirst
  have hone : [Sample.grant] = [] ++ Sample.grant :: [] := rfl
  obtain ⟨key, x, hx, hjoint, hwritten⟩ := hlinked.written hone
    ⟨1, by decide, 2, by decide, rfl⟩ (List.forall_mem_nil _)
  have hlabel : Sample.granted.ownerValue? Sample.accountCleanup.bound Names.ownerLabel =
      some (.str "Account") := rfl
  have hid : Sample.granted.ownerValue? Sample.accountCleanup.bound Names.ownerId =
      some (.str "a") := rfl
  obtain ⟨job, n, i, hjob, hrun, hgone, -⟩ := links_then_cleanup 9 hsource ⟨_, rfl, rfl, rfl⟩
    (by decide) rfl hlabel hid (hagain _)
  have hmark : x.properties.find? Names.mark = some (.int 1) := hwritten Names.mark
  refine ⟨_, _, _, _, job, n, i, key, x, hfirst, hagain _, hjob, hrun, hx, hjoint,
    (hgone key x hx).2 ⟨?_, ?_, ?_⟩⟩
  · obtain ⟨htype, hends⟩ := Prod.mk.inj hjoint
    exact ⟨htype, ⟨1, 2, hends.symm, by decide, by decide⟩, ⟨_, hwritten Names.ownerLabel, rfl⟩,
      ⟨_, hwritten Names.ownerId, rfl⟩⟩
  · rw [linked, chunks]
    exact List.not_mem_nil
  · intro mark hm
    cases hmark.symm.trans hm
    rfl

end Load

end GraphSync
