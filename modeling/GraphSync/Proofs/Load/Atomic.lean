import GraphSync.Proofs.Sample

/-! A load writes all its records or none, and what makes it fail is read off its parameters. -/
namespace GraphSync.Load

variable {config : LoaderConfig} {now : Int} {s : NodeSchema} {records : List Record}
  {params : Parameters} {tag : Int} {g h : Graph} {name : String}

/-- A load of the schema reads a parameter that has no value: the caller gives none, and it is
neither the tag nor the batch. -/
def Lacks (s : NodeSchema) (params : Parameters) (name : String) : Prop :=
  (∃ r ∈ s.references, r.source = .batchParameter ∧ r.name = name) ∧
    params.contains name = false ∧ name ≠ Names.loadTag ∧ name ≠ Names.batch

theorem contains_baseParameters_iff : (baseParameters params tag).contains name = true ↔
    params.contains name = true ∨ name = Names.loadTag ∨ name = Names.batch := by
  simp only [baseParameters, SortedMap.contains_insert, Bool.or_eq_true, decide_eq_true_eq]
  tauto

/-- Nothing is lacking exactly if every statement of the load passes its check. -/
theorem forall_check_iff_not_lacks : (∀ st ∈ s.loadStatements,
      BoundStatement.check ⟨st, baseParameters params tag⟩ = .ok ()) ↔
    ∀ name, ¬ Lacks s params name := by
  rw [forall_check_iff]
  simp only [contains_baseParameters_iff]
  constructor
  · rintro h name ⟨⟨r, hr, hsource, rfl⟩, hnone, htag, hbatch⟩
    rcases h r hr hsource with hsome | hown | hown
    · exact Bool.eq_false_iff.1 hnone hsome
    · exact htag hown
    · exact hbatch hown
  · intro h r hr hsource
    have hr := h r.name
    by_contra hnone
    rw [not_or, not_or, Bool.not_eq_true] at hnone
    exact hr ⟨⟨r, ‹_›, hsource, rfl⟩, hnone⟩

/-- The name that a failing check tells of is one that the load lacks. -/
theorem lacks_of_check {st : Statement} {e : GraphError} (hst : st ∈ s.loadStatements)
    (he : BoundStatement.check ⟨st, baseParameters params tag⟩ = .error e) :
    ∃ name, e = .missingParameter st.kind name ∧ Lacks s params name := by
  obtain ⟨name, hname, hnone, rfl⟩ := BoundStatement.missing_of_check he
  have hunbound : ¬ (params.contains name = true ∨ name = Names.loadTag ∨ name = Names.batch) :=
    fun hbound => Bool.eq_false_iff.1 hnone (contains_baseParameters_iff.2 hbound)
  rw [not_or, not_or, Bool.not_eq_true] at hunbound
  refine ⟨name, rfl, ?_, hunbound⟩
  rcases NodeSchema.mem_parameters_load.1 ⟨st, hst, hname⟩ with hbatch | ⟨r, hr, hr'⟩
  · exact absurd hbatch hunbound.2.2
  · exact ⟨r, hr, PropertyRef.mem_batchNames.1 hr'⟩

/-- A load that lacks a parameter reports one, after the indexes are created. -/
theorem nodes_of_lacks (config : LoaderConfig) (now : Int) (records : List Record) (tag : Int)
    (g : Graph) (hl : Lacks s params name) : ∃ kind other, Lacks s params other ∧
      Load.nodes config now s records params tag g =
        (.error (.missingParameter kind other), indexed s g) := by
  have hnot : ¬ ∀ st ∈ s.loadStatements,
      BoundStatement.check ⟨st, baseParameters params tag⟩ = .ok () :=
    fun hall => forall_check_iff_not_lacks.1 hall name hl
  cases hcheck : s.loadStatements.forM fun st =>
      BoundStatement.check ⟨st, baseParameters params tag⟩ with
  | ok _ => exact absurd (forM_check_eq_ok_iff.1 hcheck) hnot
  | error e =>
    obtain ⟨st, hst, he⟩ := exists_of_forM_eq_error hcheck
    obtain ⟨other, rfl, hother⟩ := lacks_of_check hst he
    refine ⟨st.kind, other, hother, ?_⟩
    rw [nodes_eq, hcheck]

theorem lacks_of_error {e : GraphError}
    (hl : Load.nodes config now s records params tag g = (.error e, h)) :
    ∃ name, Lacks s params name := by
  by_contra hnone
  obtain ⟨summary, i, hok⟩ := nodes_of_check config now records g
    (forall_check_iff_not_lacks.2 (not_exists.1 hnone))
  cases hl.symm.trans hok

/-- Records without an identity are passed over, so it makes no difference to leave them out. -/
theorem kept_kept : kept s (kept s records params) params = kept s records params := by
  simp only [kept, List.filter_filter, Bool.and_self]

theorem contains_indexes_indexed {t : IndexTarget} : (indexed s g).indexes.contains t = true ↔
    g.indexes.contains t = true ∨ Statement.createIndex t ∈ s.indexStatements := by
  have hs : s.indexStatements = (distinctTargets s.indexTargets).map .createIndex := rfl
  rw [indexed, Graph.withIndexes, SortedSet.contains_addAll, hs, Bool.or_eq_true,
    decide_eq_true_eq, List.mem_map]
  simp

/-- A load fails exactly if it reads a parameter that has no value. It then tells of such a
parameter, and nothing has changed but for the indexes of the schema. A load that succeeds counts
every record once, as skipped if it has no identity under the caller's parameters, and leaves what
a load of the others leaves. -/
theorem nodes_all_or_nothing (config : LoaderConfig) (now : Int) (s : NodeSchema)
    (records : List Record) (params : Parameters) (tag : Int) (g : Graph) :
    ((∃ e h, Load.nodes config now s records params tag g = (.error e, h)) ↔
      ∃ name, Lacks s params name) ∧
    (∀ e h, Load.nodes config now s records params tag g = (.error e, h) →
      (∃ kind name, e = .missingParameter kind name ∧ Lacks s params name) ∧
        h.nodes = g.nodes ∧ h.edges = g.edges ∧ h.lastKey = g.lastKey ∧
        ∀ t, h.indexes.contains t = true ↔
          g.indexes.contains t = true ∨ Statement.createIndex t ∈ s.indexStatements) ∧
    (∀ summary h, Load.nodes config now s records params tag g = (.ok summary, h) →
      summary.received = records.length ∧
        summary.received = summary.skipped + summary.loaded ∧
        summary.skipped =
          (records.filter fun r => !(s.properties.id.resolve r params).isSome).length ∧
        Load.nodes config now s
            (records.filter fun r => (s.properties.id.resolve r params).isSome) params tag g =
          (.ok ⟨summary.loaded, 0, summary.loaded, summary.edges⟩, h)) := by
  refine ⟨⟨fun ⟨_, _, he⟩ => lacks_of_error he, fun ⟨name, hname⟩ => ?_⟩, fun e h he => ?_,
    fun summary h hok => ?_⟩
  · obtain ⟨kind, other, -, hfail⟩ := nodes_of_lacks config now records tag g hname
    exact ⟨_, _, hfail⟩
  · obtain ⟨name, hname⟩ := lacks_of_error he
    obtain ⟨kind, other, hother, hfail⟩ := nodes_of_lacks config now records tag g hname
    cases he.symm.trans hfail
    exact ⟨⟨kind, other, rfl, hother⟩, rfl, rfl, rfl, fun t => contains_indexes_indexed⟩
  · have hothers : (records.filter fun r => (s.properties.id.resolve r params).isSome) =
        kept s records params := rfl
    have hall : records.length = (kept s records params).length +
        (records.filter fun r => !(s.properties.id.resolve r params).isSome).length :=
      List.length_eq_length_filter_add _
    have hcheck := (batches_of_nodes hok).1
    rw [nodes_eq, forM_check_eq_ok_iff.2 hcheck] at hok
    cases hok
    rw [hothers, nodes_eq, forM_check_eq_ok_iff.2 hcheck, kept_kept]
    refine ⟨rfl, ?_, ?_, ?_⟩
    · dsimp only
      omega
    · dsimp only
      omega
    · rw [Nat.sub_self]

/-- Without a project a load of two records fails; with one, it skips the one without identity. -/
theorem nodes_all_or_nothing_of_sample :
    (∃ e h, Load.nodes {} 5 Sample.bucket Sample.records .empty 2 Sample.start = (.error e, h) ∧
      h.nodes = Sample.start.nodes ∧ h.edges = Sample.start.edges) ∧
    ∃ summary h,
      Load.nodes {} 5 Sample.bucket Sample.records Sample.params 2 Sample.start =
        (.ok summary, h) ∧ summary.received = 2 ∧ summary.skipped = 1 ∧ summary.loaded = 1 := by
  have hlacks : Lacks Sample.bucket .empty "PROJECT_ID" :=
    ⟨⟨.batch "PROJECT_ID", by decide, rfl, rfl⟩, rfl, by decide, by decide⟩
  obtain ⟨hfails, hunchanged, -⟩ :=
    nodes_all_or_nothing {} 5 Sample.bucket Sample.records .empty 2 Sample.start
  obtain ⟨e, h, he⟩ := hfails.2 ⟨_, hlacks⟩
  obtain ⟨-, hnodes, hedges, -, -⟩ := hunchanged e h he
  obtain ⟨summary, i, hok⟩ := nodes_of_check {} 5 Sample.records Sample.start Sample.check_load
  obtain ⟨-, -, hcounts⟩ :=
    nodes_all_or_nothing {} 5 Sample.bucket Sample.records Sample.params 2 Sample.start
  obtain ⟨hreceived, hsum, hskipped, -⟩ := hcounts summary i hok
  have htwo : summary.received = 2 := hreceived
  have hone : summary.skipped = 1 := hskipped
  exact ⟨⟨e, h, he, hnodes, hedges⟩, summary, i, hok, htwo, hone, by omega⟩

end GraphSync.Load
