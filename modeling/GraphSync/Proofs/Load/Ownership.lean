import GraphSync.Proofs.Cleanup.Effect
import GraphSync.Proofs.Load.Joined
import GraphSync.Proofs.Load.Owned
import GraphSync.Proofs.Statement.Dependence

/-! A load and the sweeps of its schema mean the same owners: what the load joins to an owner is
what the sweeps then find owned. -/
namespace GraphSync

/-- The scope within which a sweep removes. -/
def Statement.sweepScope? : Statement → Option Scope
  | .sweepNodes _ scope => scope
  | .sweepOwnership _ scope => some scope
  | .sweepEdges _ scope _ => scope
  | _ => none

namespace Graph

/-- A load with some bindings writes edges to the owners that a scope means with others. -/
structure SharesOwners (g : Graph) (s : NodeSchema) (o : EdgeSchema) (scope : Scope)
    (params others : Parameters) : Prop where
  /-- Whatever the record, its targets are the owners, each listed once. -/
  targets : ∀ record, (g.matching record params o.target).Nodup ∧
    ∀ key, key ∈ g.matching record params o.target ↔ g.isOwner others scope key = true
  /-- One row makes its node an owned one, even if the graph holds the same edge already. -/
  row : ∀ now record node, ∀ owner ∈ g.matching record params o.target,
    (g.writeEdge now o params record (node, owner)).isOwned others scope node = true
  /-- After a batch just the nodes of its records are owned besides those that were. -/
  batch : ∀ now records, g.WellFormed → params.records = .ok records →
    ∃ h rows, g.apply now (.upsertEdges (s.edgeUpsert o)) params = .ok (h, rows) ∧
      ∀ key, h.isOwned others scope key = true ↔ g.isOwned others scope key = true ∨
        (∃ r ∈ records, g.nodeOf s params r = some key) ∧
          ∃ owner, g.isOwner others scope owner = true

variable {g h : Graph} {now : Int} {s : NodeSchema} {o : EdgeSchema} {scope : Scope}
  {params others : Parameters} {records : List Record} {record : Record} {key owner node : Nat}

/-- An edge of the type leads from start to finish after it is written. -/
theorem exists_edge_touchEdge {edgeType : String} {start finish : Nat} {f : Record → Record} :
    ∃ k x, (g.touchEdge now edgeType start finish f).edges.find? k = some x ∧
      x.joint = (edgeType, start, finish) := by
  cases hf : g.findEdge edgeType start finish with
  | none =>
    refine ⟨g.lastKey + 1, ⟨edgeType, start, finish, f (createdEdge now)⟩, ?_, rfl⟩
    rw [touchEdge_of_absent hf, find?_edges_addEdge, if_pos rfl]
  | some k =>
    obtain ⟨x, hx, hj⟩ := findEdge_eq_some hf
    have hjoint : x.joint = (edgeType, start, finish) := joins_iff_joint.1 hj
    refine ⟨k, { x with properties := f x.properties }, ?_, hjoint⟩
    rw [touchEdge_of_found hf hx, find?_edges_setEdge, if_pos rfl]

/-- A node is owned if an owner is joined to it. -/
theorem isOwned_iff_joint : g.isOwned params scope key = true ↔
    ∃ owner, g.isOwner params scope owner = true ∧
      ∃ k x, g.edges.find? k = some x ∧ x.joint = (scope.edgeType, owner, key) := by
  rw [isOwned_iff]
  constructor
  · rintro ⟨k, x, hx, htype, hfinish, howner⟩
    exact ⟨x.start, howner, k, x, hx, by rw [Edge.joint, htype, hfinish]⟩
  · rintro ⟨owner, howner, k, x, hx, hj⟩
    obtain ⟨htype, hends⟩ := Prod.ext_iff.1 hj
    obtain ⟨rfl, hfinish⟩ := Prod.ext_iff.1 hends
    exact ⟨k, x, hx, htype, hfinish, howner⟩

theorem nodup_matching_owner (hv : NodePlan.OwnerValid o) :
    (g.matching record params o.target).Nodup := by
  rw [matching, candidates_owner hv, List.flatMap_singleton]
  exact (SortedMap.nodup_keys g.nodes).sublist
    ((List.filter_sublist.trans List.filter_sublist).map _)

theorem isOwned_writeEdge (hinward : o.direction = .inward)
    (howner : g.isOwner others ⟨o.edgeType, o.target⟩ owner = true) :
    (g.writeEdge now o params record (node, owner)).isOwned others ⟨o.edgeType, o.target⟩ node =
      true := by
  rw [writeEdge_eq_touchEdge, hinward, isOwned_iff_joint]
  refine ⟨owner, ?_, exists_edge_touchEdge⟩
  rwa [isOwner, nodes_touchEdge]

/-- Rows of owners add to the owned nodes just those that they start from. -/
theorem isOwned_putRows_iff {rows : Record → List (Nat × Nat)} (hg : g.WellFormed)
    (hinward : o.direction = .inward) (hends : ∀ r ∈ records, ∀ row ∈ rows r, g.HasEnds row)
    (howners : ∀ r ∈ records, ∀ row ∈ rows r,
      g.isOwner others ⟨o.edgeType, o.target⟩ row.2 = true) :
    (g.putRows now params (recordRows o rows records)).isOwned others ⟨o.edgeType, o.target⟩ key =
        true ↔ g.isOwned others ⟨o.edgeType, o.target⟩ key = true ∨
      ∃ r ∈ records, ∃ owner, (key, owner) ∈ rows r := by
  have hjoint : ∀ {w : EdgeWrite}, w ∈ recordRows o rows records →
      w.joint = (o.edgeType, w.row.2, w.row.1) := by
    intro w hw
    rw [EdgeWrite.joint, EdgeWrite.ends, (mem_recordRows.1 hw).1, hinward]
    rfl
  have hthere : ∀ owner, (∃ k x, (g.putRows now params (recordRows o rows records)).edges.find? k =
      some x ∧ x.joint = (o.edgeType, owner, key)) ↔
        (∃ k x, g.edges.find? k = some x ∧ x.joint = (o.edgeType, owner, key)) ∨
          ∃ r ∈ records, (key, owner) ∈ rows r := by
    intro owner
    rw [← isSome_between_iff, ← isSome_between_iff,
      isSome_between_putRows hg (hasEnds_of_mem_recordRows hends) now params]
    refine or_congr_right ⟨?_, ?_⟩
    · rintro ⟨w, hw, hj⟩
      cases (hjoint hw).symm.trans hj
      exact ⟨w.record, (mem_recordRows.1 hw).2⟩
    · rintro ⟨r, hr, hrow⟩
      have hw : ⟨o, r, (key, owner)⟩ ∈ recordRows o rows records := mem_recordRows.2 ⟨rfl, hr, hrow⟩
      exact ⟨_, hw, hjoint hw⟩
  simp only [isOwned_iff_joint, isOwner, nodes_putRows, hthere]
  constructor
  · rintro ⟨owner, howner, hold | ⟨r, hr, hrow⟩⟩
    · exact .inl ⟨owner, howner, hold⟩
    · exact .inr ⟨r, hr, owner, hrow⟩
  · rintro (⟨owner, howner, hold⟩ | ⟨r, hr, owner, hrow⟩)
    · exact ⟨owner, howner, .inl hold⟩
    · exact ⟨owner, howners r hr _ hrow, .inr ⟨r, hr, hrow⟩⟩

/-- Bindings that agree on the names of the owner's matcher mean the same owners. -/
theorem isOwner_of_agreeOn
    (hagree : Parameters.AgreeOn o.target.matcher.mapping.batchNames params others) :
    g.isOwner params ⟨o.edgeType, o.target⟩ key =
      g.isOwner others ⟨o.edgeType, o.target⟩ key := by
  refine isOwner_congr fun entry hentry => (PropertyRef.resolve_of_agreeOn ?_ .empty).symm
  exact fun name hname => hagree name (Mapping.mem_batchNames.2 ⟨entry, hentry, hname⟩)

theorem sharesOwners (s : NodeSchema) (hv : NodePlan.OwnerValid o)
    (hagree : Parameters.AgreeOn o.target.matcher.mapping.batchNames params others) :
    g.SharesOwners s o ⟨o.edgeType, o.target⟩ params others := by
  have howner : ∀ record key, key ∈ g.matching record params o.target ↔
      g.isOwner others ⟨o.edgeType, o.target⟩ key = true := by
    intro record key
    rw [mem_matching_iff_isOwner hv record, isOwner_of_agreeOn hagree]
  constructor
  case targets => exact fun record => ⟨nodup_matching_owner hv, howner record⟩
  case row =>
    intro now record node owner hm
    exact isOwned_writeEdge hv.inward ((howner record owner).1 hm)
  case batch =>
    intro now records hg hrecords
    have hends : ∀ r ∈ records, ∀ row ∈ g.edgeRows (s.edgeUpsert o) params r, g.HasEnds row :=
      fun r _ row hrow => hasEnds_of_mem_edgeRows hrow
    have howners : ∀ r ∈ records, ∀ row ∈ g.edgeRows (s.edgeUpsert o) params r,
        g.isOwner others ⟨o.edgeType, o.target⟩ row.2 = true :=
      fun r _ row hrow => (howner r row.2).1 (mem_edgeRows_nodeOf.1 hrow).2
    refine ⟨_, _, upsertRows_eq_putRows hrecords, fun key => ?_⟩
    refine (isOwned_putRows_iff hg hv.inward hends howners).trans (or_congr_right ?_)
    simp only [mem_edgeRows_nodeOf, howner]
    constructor
    · rintro ⟨r, hr, owner, hnode, howner⟩
      exact ⟨⟨r, hr, hnode⟩, owner, howner⟩
    · rintro ⟨⟨r, hr, hnode⟩, owner, howner⟩
      exact ⟨r, hr, owner, hnode, howner⟩

end Graph

namespace NodeSchema

theorem sweepScope?_of_mem_cleanupStatements {s : NodeSchema} {scope : Scope} {st : Statement}
    (hscope : s.scope = some scope) (hst : st ∈ s.cleanupStatements) :
    st.sweepScope? = some scope := by
  simp only [cleanupStatements, ownershipSweep, hscope, Option.toList_some, List.mem_append,
    List.mem_cons, List.mem_map, List.not_mem_nil, or_false] at hst
  rcases hst with (rfl | ⟨e, -, rfl⟩) | rfl <;> rfl

/-- The edge to the owner is written to the owners that every sweep of the same schema means, if
load and cleanup bind the names of its matcher alike. -/
theorem load_shares_owners_with_sweeps (s : NodeSchema) (hscoped : s.scopedCleanup = true) :
    ∃ o scope, s.owner = some o ∧ s.scope = some scope ∧
      .upsertEdges (s.edgeUpsert o) ∈ s.loadStatements ∧
      (∀ st ∈ s.cleanupStatements, st.sweepScope? = some scope) ∧
      ∀ (g : Graph) (params others : Parameters),
        Parameters.AgreeOn o.target.matcher.mapping.batchNames params others →
          g.SharesOwners s o scope params others := by
  obtain ⟨o, ho⟩ := Option.isSome_iff_exists.1 (s.valid.owned hscoped)
  have hscope : s.scope = some ⟨o.edgeType, o.target⟩ :=
    scope_eq_some_iff.2 ⟨o, (if_pos hscoped).trans ho, rfl⟩
  have hload : .upsertEdges (s.edgeUpsert o) ∈ s.loadStatements := by
    refine List.mem_cons_of_mem _ (List.mem_map_of_mem (List.mem_append_right _ ?_))
    exact Option.mem_toList.2 ho
  refine ⟨o, _, ho, hscope, hload, fun st => sweepScope?_of_mem_cleanupStatements hscope, ?_⟩
  exact fun g params others => Graph.sharesOwners s (s.valid.owner o ho)

/-- The cleanup binds more than the load does, and still finds the bucket in its project after the
load has joined the two. -/
theorem load_shares_owners_with_sweeps_of_sample :
    Sample.bucket.scopedCleanup = true ∧
      Parameters.AgreeOn Sample.inProject.target.matcher.mapping.batchNames
        (Sample.params.withBatch Sample.oneBucket) Sample.common.bound ∧
      Sample.start.matching .empty (Sample.params.withBatch Sample.oneBucket)
        Sample.inProject.target = [1] ∧
      Sample.start.isOwned Sample.common.bound ⟨"RESOURCE", Sample.inProject.target⟩ 2 = false ∧
      ∃ h rows, Sample.start.apply 5 (.upsertEdges (Sample.bucket.edgeUpsert Sample.inProject))
          (Sample.params.withBatch Sample.oneBucket) = .ok (h, rows) ∧
        h.isOwned Sample.common.bound ⟨"RESOURCE", Sample.inProject.target⟩ 2 = true ∧
        h.isOwned Sample.common.bound ⟨"RESOURCE", Sample.inProject.target⟩ 1 = false := by
  have hagree : Parameters.AgreeOn Sample.inProject.target.matcher.mapping.batchNames
      (Sample.params.withBatch Sample.oneBucket) Sample.common.bound :=
    List.forall_mem_singleton.2 rfl
  obtain ⟨o, scope, ho, hscope, -, -, hshares⟩ :=
    load_shares_owners_with_sweeps Sample.bucket rfl
  cases ho
  cases hscope
  obtain ⟨-, -, hbatch⟩ := hshares Sample.start _ _ hagree
  obtain ⟨h, rows, happly, howned⟩ := hbatch 5 _ Sample.reachable_start.wellFormed
    Parameters.records_withBatch
  refine ⟨rfl, hagree, by decide, by decide, h, rows, happly, ?_, ?_⟩
  · exact (howned 2).2 (.inr ⟨⟨_, List.mem_singleton_self _, by decide⟩, 1, by decide⟩)
  · refine Bool.eq_false_iff.2 fun hone => ?_
    rcases (howned 1).1 hone with hbefore | ⟨⟨r, hr, hnode⟩, -⟩
    · exact absurd hbefore (by decide)
    · rw [List.mem_singleton.1 hr] at hnode
      exact absurd hnode (by decide)

end NodeSchema

end GraphSync
