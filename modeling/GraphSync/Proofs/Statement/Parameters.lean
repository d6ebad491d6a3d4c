import GraphSync.Proofs.Sample
import GraphSync.Proofs.Statement.LoadProbe
import GraphSync.Proofs.Statement.SweepProbe

/-! The parameters of a compiled statement, read off its text, are those that it reads. -/
namespace GraphSync.Statement

variable {st : Statement} {params : Parameters} {name : String} {r : PropertyRef}

namespace Compiled

theorem check_of_contains (hst : Compiled st)
    (h : ∀ name ∈ st.reads, params.contains name = true) :
    BoundStatement.check ⟨st, params⟩ = .ok () :=
  BoundStatement.check_eq_ok_iff.2 fun name hname => h name (hst.mem_parameters.1 hname)

theorem check_sweepProbe (hst : Compiled st) :
    BoundStatement.check ⟨st, st.sweepProbe⟩ = .ok () :=
  hst.check_of_contains fun _ hname =>
    SortedMap.contains_eq_true_iff.2 ⟨_, Record.find?_filled hname⟩

theorem check_loadProbe (hst : Compiled st) :
    BoundStatement.check ⟨st, st.loadProbe⟩ = .ok () := by
  refine hst.check_of_contains fun name hname => ?_
  have hfilled : SortedMap.contains (Record.filled st.reads (.str "")) name = true :=
    SortedMap.contains_eq_true_iff.2 ⟨_, Record.find?_filled hname⟩
  rw [loadProbe, Parameters.withBatch, SortedMap.contains_insert, hfilled, Bool.or_true]

/-- Once a check succeeds, no parameter is missing that the statement refers to. -/
theorem found_of_check (hst : Compiled st) (hcheck : BoundStatement.check ⟨st, params⟩ = .ok ())
    (hr : r ∈ st.references) (hsource : r.source = .batchParameter) (record : Record) :
    ∃ v, r.find? record params = some v := by
  have hname : r.name ∈ st.parameters :=
    hst.mem_parameters.2 (mem_reads_iff.2 (.inr ⟨r, hr, hsource, rfl⟩))
  have hbound := BoundStatement.check_eq_ok_iff.1 hcheck r.name hname
  obtain ⟨v, hv⟩ := SortedMap.contains_eq_true_iff.1 hbound
  refine ⟨v, ?_⟩
  rw [PropertyRef.find?, hsource]
  exact hv

theorem needs_cleanup {s : NodeSchema} (h : st ∈ s.cleanupStatements)
    (hcheck : BoundStatement.check ⟨st, st.sweepProbe⟩ = .ok ()) (hname : name ∈ st.reads) :
    st.Needs name := by
  have hvalid : ∀ scope ∈ s.scope, ∀ e ∈ scope.owner.matcher.mapping,
      NodePlan.IdentifiesOwner e.2 := fun _ => NodeSchema.ownerValid_of_mem_scope
  simp only [NodeSchema.cleanupStatements, List.cons_append, List.mem_cons, List.mem_append,
    List.mem_map, Option.mem_toList] at h
  rcases h with h | ⟨e, -, h⟩ | hmem
  · exact needs_sweepNodes h hvalid hcheck hname
  · exact needs_sweepEdges h.symm hvalid hcheck hname
  · rw [NodeSchema.ownershipSweep] at hmem
    split at hmem
    · next scope hs =>
      exact needs_sweepOwnership (Option.some.inj hmem).symm (hvalid scope hs) hcheck hname
    · obtain ⟨e, -, h⟩ := Option.map_eq_some_iff.1 hmem
      refine needs_sweepEdges h.symm (fun s hs => ?_) hcheck hname
      exact absurd hs (Option.not_mem_none s)

/-- A statement that does not find nodes by the batch itself needs every parameter of its text. -/
theorem needs (hst : Compiled st)
    (hbatch : Names.batch ∉ st.located.flatMap PropertyRef.batchNames)
    (hname : name ∈ st.parameters) : st.Needs name := by
  have hreads := hst.mem_parameters.1 hname
  have hload := hst.check_loadProbe
  have hsweep := hst.check_sweepProbe
  have hindex : ∀ {targets}, st ∈ indexAll targets → st.Needs name := by
    intro targets h
    obtain ⟨t, -, rfl⟩ := List.mem_map.1 h
    cases hreads
  cases hst with
  | load s h =>
    rw [NodeSchema.loadStatements_eq] at h
    rcases List.mem_cons.1 h with h | h
    · exact needs_upsertNodes h hload hbatch hreads
    · obtain ⟨e, -, h⟩ := List.mem_map.1 h
      exact needs_upsertEdges h.symm hload hbatch hreads
  | cleanup s h => exact needs_cleanup h hsweep hreads
  | index s h => exact hindex h
  | linkLoad e h =>
    obtain ⟨source, -, h⟩ := eq_upsertLinks_of_ok h
    exact needs_upsertLinks h hload hbatch hreads
  | linkCleanup e h =>
    obtain ⟨hlink, source, ownerLabel, ownerId, -, hlabel, hid, h⟩ := eq_sweepLinks_of_ok h
    obtain ⟨⟨r, hr, hrsource⟩, q, hq, hqsource⟩ := e.valid.owned hlink
    cases hr.symm.trans hlabel
    cases hq.symm.trans hid
    exact needs_sweepLinks h hrsource hqsource hsweep hreads
  | linkIndex e h hmem =>
    obtain ⟨source, -, h⟩ := bind_eq_ok_iff.1 h
    cases h
    exact hindex hmem

end Compiled

/-- The names in the text of a compiled statement come in order and once each. They are the fixed
names of its kind and those of the parameters that it refers to, so once a check of the text
succeeds, none of these is missing. What the statement does depends on no other parameter. It does
depend on each of these, unless nodes are looked up by the batch itself. -/
theorem text_names_what_is_read (hst : Compiled st) :
    st.parameters.Pairwise (· < ·) ∧
    (∀ name, name ∈ st.parameters ↔ name ∈ st.fixedNames ∨
      ∃ r ∈ st.references, r.source = .batchParameter ∧ r.name = name) ∧
    (∀ params, BoundStatement.check ⟨st, params⟩ = .ok () →
      ∀ r ∈ st.references, r.source = .batchParameter →
        ∀ record, ∃ v, r.find? record params = some v) ∧
    (∀ now g params others, (∀ name ∈ st.parameters, others.find? name = params.find? name) →
      Graph.apply now g st others = Graph.apply now g st params) ∧
    ((∀ r ∈ st.located, r.source = .batchParameter → r.name ≠ Names.batch) →
      ∀ name ∈ st.parameters, ∃ now g params, BoundStatement.check ⟨st, params⟩ = .ok () ∧
        Graph.apply now g st (SortedMap.erase params name) ≠ Graph.apply now g st params) := by
  refine ⟨ascending_parameters st, fun name => ?_, fun params hcheck r hr hsource record => ?_,
    fun now g params others hsame => ?_, fun hbatch name hname => ?_⟩
  · exact hst.mem_parameters.trans mem_reads_iff
  · exact hst.found_of_check hcheck hr hsource record
  · exact Graph.apply_of_agreeOn fun name hname => hsame name (hst.mem_parameters.2 hname)
  · refine hst.needs (fun h => ?_) hname
    obtain ⟨r, hr, hmem⟩ := List.mem_flatMap.1 h
    obtain ⟨hsource, hn⟩ := PropertyRef.mem_batchNames.1 hmem
    exact hbatch r hr hsource hn

/-- The sweep of a project's buckets reads the project besides tag and page size. The load of their
edges to it reads it besides the batch and the mark, and would do something else without it. -/
theorem text_names_what_is_read_of_sample :
    (∀ name, name ∈ (sweepNodes "Bucket" Sample.bucket.scope).parameters ↔
      name = Names.sweepTag ∨ name = Names.pageSize ∨ name = "PROJECT_ID") ∧
    (∀ name, name ∈ (upsertEdges (Sample.bucket.edgeUpsert Sample.inProject)).parameters ↔
      name = Names.batch ∨ name = "PROJECT_ID" ∨ name = Names.loadTag) ∧
    (upsertEdges (Sample.bucket.edgeUpsert Sample.inProject)).Needs "PROJECT_ID" := by
  have hsweep : Compiled (sweepNodes "Bucket" Sample.bucket.scope) :=
    .cleanup Sample.bucket List.mem_cons_self
  have hload : Compiled (upsertEdges (Sample.bucket.edgeUpsert Sample.inProject)) := by
    refine .load Sample.bucket (List.mem_cons_of_mem _ (List.mem_map_of_mem ?_))
    exact List.mem_append_right _ (List.mem_singleton_self _)
  obtain ⟨-, hswept, -⟩ := text_names_what_is_read hsweep
  obtain ⟨-, hloaded, -, -, hneeds⟩ := text_names_what_is_read hload
  have howner : (sweepNodes "Bucket" Sample.bucket.scope).references = [.batch "PROJECT_ID"] := rfl
  have hedge : (upsertEdges (Sample.bucket.edgeUpsert Sample.inProject)).references =
      [.field "id", .batch "PROJECT_ID", .batch Names.loadTag] := rfl
  rw [howner] at hswept
  rw [hedge] at hloaded
  have hnames : ∀ name,
      name ∈ (upsertEdges (Sample.bucket.edgeUpsert Sample.inProject)).parameters ↔
      name = Names.batch ∨ name = "PROJECT_ID" ∨ name = Names.loadTag := by
    intro name
    rw [hloaded name]
    simp [fixedNames, PropertyRef.field, PropertyRef.batch, eq_comm]
  refine ⟨fun name => ?_, hnames, hneeds (by decide) "PROJECT_ID" ((hnames _).2 (.inr (.inl rfl)))⟩
  rw [hswept name]
  simp [fixedNames, PropertyRef.batch, eq_comm, or_assoc]

end GraphSync.Statement
