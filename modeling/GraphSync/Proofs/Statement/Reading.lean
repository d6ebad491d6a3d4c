import GraphSync.Proofs.Load.Indexes
import GraphSync.Proofs.Statement.Names

/-! What a statement reads of its parameters, and that its text refers to that and nothing else. -/
namespace GraphSync

namespace Mapping

def references (m : Mapping) : List PropertyRef := m.map (·.2)

theorem batchNames_eq (m : Mapping) :
    m.references.flatMap PropertyRef.batchNames = m.batchNames := by
  rw [references, batchNames, List.flatMap_map]

end Mapping

namespace Statement

/-- The references by which a statement finds nodes or edges. -/
def located : Statement → List PropertyRef
  | upsertNodes u => [u.properties.id]
  | upsertEdges u => u.nodeId :: u.edge.target.matcher.mapping.references
  | upsertLinks u =>
    u.source.matcher.mapping.references ++ u.edge.target.matcher.mapping.references
  | sweepNodes _ scope => scope.toList.flatMap (·.owner.matcher.mapping.references)
  | sweepOwnership _ scope => scope.owner.matcher.mapping.references
  | sweepEdges _ scope _ => scope.toList.flatMap (·.owner.matcher.mapping.references)
  | sweepLinks s => [s.ownerLabel, s.ownerId]
  | _ => []

/-- The references whose values a statement writes. -/
def written : Statement → List PropertyRef
  | upsertNodes u => u.properties.assigned.references
  | upsertEdges u => u.edge.properties.mapping.references
  | upsertLinks u => u.edge.properties.mapping.references
  | _ => []

def references (s : Statement) : List PropertyRef := s.located ++ s.written

/-- The parameters that a kind of statement reads by itself: the batch, or tag and page size. -/
def fixedNames : Statement → List String
  | upsertNodes _ => [Names.batch]
  | upsertEdges _ => [Names.batch]
  | upsertLinks _ => [Names.batch]
  | sweepNodes _ _ => [Names.sweepTag, Names.pageSize]
  | sweepOwnership _ _ => [Names.sweepTag, Names.pageSize]
  | sweepEdges _ _ _ => [Names.sweepTag, Names.pageSize]
  | sweepLinks _ => [Names.sweepTag, Names.pageSize]
  | linkByProperty _ => [Names.sweepTag]
  | _ => []

/-- The parameters that a statement reads, on whichever graph and with whichever records. -/
def reads (s : Statement) : List String :=
  s.fixedNames ++ s.references.flatMap PropertyRef.batchNames

/-- The statements that schemas compile to. -/
inductive Compiled : Statement → Prop
  | load {st : Statement} (s : NodeSchema) (h : st ∈ s.loadStatements) : Compiled st
  | cleanup {st : Statement} (s : NodeSchema) (h : st ∈ s.cleanupStatements) : Compiled st
  | index {st : Statement} (s : NodeSchema) (h : st ∈ s.indexStatements) : Compiled st
  | linkLoad {st : Statement} (e : EdgeSchema) (h : e.loadStatement = .ok st) : Compiled st
  | linkCleanup {st : Statement} (e : EdgeSchema) (h : e.cleanupStatement = .ok st) : Compiled st
  | linkIndex {st : Statement} (e : EdgeSchema) {statements : List Statement}
      (h : e.indexStatements = .ok statements) (hst : st ∈ statements) : Compiled st

variable {st : Statement} {name : String}

theorem mem_reads : name ∈ st.reads ↔ name ∈ st.fixedNames ∨
    name ∈ st.located.flatMap PropertyRef.batchNames ∨
      name ∈ st.written.flatMap PropertyRef.batchNames := by
  rw [reads, references, List.flatMap_append, List.mem_append, List.mem_append]

theorem mem_reads_iff : name ∈ st.reads ↔
    name ∈ st.fixedNames ∨ ∃ r ∈ st.references, r.source = .batchParameter ∧ r.name = name := by
  simp only [reads, List.mem_append, List.mem_flatMap, PropertyRef.mem_batchNames]

/-- No name of a text comes twice, and they are in ascending order. -/
theorem ascending_parameters (st : Statement) : st.parameters.Pairwise (· < ·) :=
  List.pairwise_map.2 (SortedMap.ascending _)

theorem mem_parameters_index {targets : List IndexTarget} (ht : ∀ t ∈ targets, t.Named)
    (h : st ∈ indexAll targets) : name ∈ st.parameters ↔ name ∈ st.reads := by
  obtain ⟨t, hmem, rfl⟩ := List.mem_map.1 h
  have hnamed := ht t (mem_distinctTargets.1 hmem)
  rw [hnamed.parameters_eq]
  rfl

theorem mem_parameters_load {s : NodeSchema} (h : st ∈ s.loadStatements) :
    name ∈ st.parameters ↔ name ∈ st.reads := by
  rw [NodeSchema.loadStatements_eq] at h
  rcases List.mem_cons.1 h with rfl | h
  · rw [NodeSchema.mem_parameters_upsertNodes, ← NodeProperties.mem_batchNames, mem_reads,
      List.mem_append]
    simp only [fixedNames, located, written, Mapping.batchNames_eq, List.mem_singleton,
      List.flatMap_singleton]
    rfl
  · obtain ⟨e, -, rfl⟩ := List.mem_map.1 h
    rw [NodeSchema.mem_parameters_upsertEdges, mem_reads]
    simp only [fixedNames, located, written, Mapping.batchNames_eq, List.mem_singleton,
      List.flatMap_cons, List.mem_append, or_assoc]
    exact or_congr_right (or_congr_right or_comm)

theorem eq_upsertLinks_of_ok {e : EdgeSchema} (h : e.loadStatement = .ok st) :
    ∃ source, e.source = some source ∧ st = .upsertLinks ⟨source, e⟩ := by
  cases hs : e.source with
  | none => simp [EdgeSchema.loadStatement, EdgeSchema.linkSource, hs, bind, Except.bind] at h
  | some source =>
    have hst : e.loadStatement = .ok (.upsertLinks ⟨source, e⟩) := by
      simp only [EdgeSchema.loadStatement, EdgeSchema.linkSource, hs]
      rfl
    cases hst.symm.trans h
    exact ⟨source, rfl, rfl⟩

theorem mem_parameters_linkLoad {e : EdgeSchema} (h : e.loadStatement = .ok st) :
    name ∈ st.parameters ↔ name ∈ st.reads := by
  obtain ⟨source, hs, rfl⟩ := eq_upsertLinks_of_ok h
  have htext := Cypher.refers_linkUpsertText (u := ⟨source, e⟩) (e.valid.source source hs)
  rw [parameters, cypher, htext.mem_names, List.mem_cons, List.mem_append, List.mem_append,
    Matcher.mem_batchNames, Matcher.mem_batchNames, mem_reads]
  simp only [fixedNames, located, written, Mapping.batchNames_eq, List.mem_singleton,
    List.flatMap_append, List.mem_append]

/-- The sweeps of a schema read what tells the owner, if they ask for one. -/
theorem mem_comparedNames_iff {s : NodeSchema} {scope : Scope} (h : scope ∈ s.scope) :
    name ∈ scope.owner.matcher.comparedNames ↔ name ∈ scope.owner.matcher.mapping.batchNames := by
  rw [NodeSchema.mem_comparedNames_scope h, Mapping.mem_batchNames]
  refine exists_congr fun entry => and_congr_right fun hentry => ?_
  rw [PropertyRef.mem_batchNames]
  exact (and_iff_right (NodeSchema.ownerValid_of_mem_scope h entry hentry).2.2).symm

theorem mem_parameters_cleanup {s : NodeSchema} (h : st ∈ s.cleanupStatements) :
    name ∈ st.parameters ↔ name ∈ st.reads := by
  have hnames : name ∈ Scope.sweepNames s.scope ↔
      (name = Names.sweepTag ∨ name = Names.pageSize) ∨
        ∃ scope ∈ s.scope, name ∈ scope.owner.matcher.mapping.batchNames := by
    simp only [Scope.sweepNames, List.mem_append, List.mem_flatMap, List.mem_cons, List.not_mem_nil,
      or_false, Option.mem_toList, or_comm (a := ∃ scope, _)]
    refine or_congr_right (exists_congr fun scope => and_congr_right fun hscope => ?_)
    exact mem_comparedNames_iff hscope
  rw [NodeSchema.mem_parameters_cleanup h, hnames, mem_reads]
  simp only [NodeSchema.cleanupStatements, List.cons_append, List.mem_cons, List.mem_append,
    List.mem_map, Option.mem_toList] at h
  rcases h with rfl | ⟨e, -, rfl⟩ | hmem
  · simp [fixedNames, located, written, List.flatMap_assoc, Mapping.batchNames_eq]
  · simp [fixedNames, located, written, List.flatMap_assoc, Mapping.batchNames_eq]
  · rw [NodeSchema.ownershipSweep] at hmem
    split at hmem
    · next scope hs =>
      obtain rfl := Option.some_inj.1 hmem
      simp [fixedNames, located, written, Mapping.batchNames_eq, hs]
    · next hs =>
      obtain ⟨e, -, rfl⟩ := Option.map_eq_some_iff.1 hmem
      simp [fixedNames, located, written, hs]

theorem eq_sweepLinks_of_ok {e : EdgeSchema} (h : e.cleanupStatement = .ok st) :
    e.IsMatchLink ∧ ∃ source ownerLabel ownerId, e.source = some source ∧
      e.properties.mapping.ref? Names.ownerLabel = some ownerLabel ∧
      e.properties.mapping.ref? Names.ownerId = some ownerId ∧
      st = .sweepLinks ⟨source.label, e.pattern, ownerLabel, ownerId⟩ := by
  cases hs : e.source with
  | none => simp [EdgeSchema.cleanupStatement, EdgeSchema.linkSource, hs, bind, Except.bind] at h
  | some source =>
    have hlink : e.IsMatchLink := Option.isSome_iff_exists.2 ⟨source, hs⟩
    obtain ⟨source, ownerLabel, ownerId, hsource, hlabel, hid, hst⟩ :=
      EdgeSchema.exists_cleanupStatement hlink
    cases hst.symm.trans h
    exact ⟨hlink, source, ownerLabel, ownerId, hs.symm.trans hsource, hlabel, hid, rfl⟩

theorem mem_parameters_linkCleanup {e : EdgeSchema} (h : e.cleanupStatement = .ok st) :
    name ∈ st.parameters ↔ name ∈ st.reads := by
  obtain ⟨-, source, ownerLabel, ownerId, hsource, hlabel, hid, rfl⟩ := eq_sweepLinks_of_ok h
  rw [EdgeSchema.mem_parameters_sweepLinks hsource hlabel hid, mem_reads]
  simp only [fixedNames, located, written, List.flatMap_cons, List.flatMap_nil, List.append_nil,
    List.mem_append, List.mem_cons, List.not_mem_nil, or_false]
  rw [or_assoc, ← or_assoc (c := name = Names.pageSize), or_comm (b := name = Names.pageSize)]

theorem exists_targets_of_ok {e : EdgeSchema} {statements : List Statement}
    (h : e.indexStatements = .ok statements) :
    ∃ targets : List IndexTarget, (∀ t ∈ targets, t.Named) ∧ statements = indexAll targets := by
  cases hs : e.source with
  | none => simp [EdgeSchema.indexStatements, EdgeSchema.linkSource, hs, bind, Except.bind] at h
  | some source =>
    have hall : e.indexStatements = .ok (indexAll
        (EdgeSchema.endpointIndexes source ++ EdgeSchema.endpointIndexes e.target)) := by
      simp only [EdgeSchema.indexStatements, EdgeSchema.linkSource, hs]
      rfl
    refine ⟨_, fun t ht => ?_, (Except.ok.inj (hall.symm.trans h)).symm⟩
    rcases List.mem_append.1 ht with ht | ht
    · exact NodeSchema.named_of_mem_endpointIndexes (e.valid.source source hs) ht
    · exact NodeSchema.named_of_mem_endpointIndexes e.valid.target ht

theorem mem_parameters_linkIndex {e : EdgeSchema} {statements : List Statement}
    (h : e.indexStatements = .ok statements) (hst : st ∈ statements) :
    name ∈ st.parameters ↔ name ∈ st.reads := by
  obtain ⟨targets, htargets, rfl⟩ := exists_targets_of_ok h
  exact mem_parameters_index htargets hst

/-- The text of a compiled statement refers to what the statement reads. -/
theorem Compiled.mem_parameters (hst : Compiled st) : name ∈ st.parameters ↔ name ∈ st.reads := by
  cases hst with
  | load s h => exact mem_parameters_load h
  | cleanup s h => exact mem_parameters_cleanup h
  | index s h => exact mem_parameters_index (fun _ => NodeSchema.named_of_mem_indexTargets) h
  | linkLoad e h => exact mem_parameters_linkLoad h
  | linkCleanup e h => exact mem_parameters_linkCleanup h
  | linkIndex e h hst => exact mem_parameters_linkIndex h hst

end Statement

end GraphSync
