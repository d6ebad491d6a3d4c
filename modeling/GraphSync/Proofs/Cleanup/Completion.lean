import GraphSync.Proofs.Sample

/-! A cleanup job either lacks a parameter and changes nothing, or runs all its statements. -/
namespace GraphSync

namespace CommonParameters

/-- A name has a value for the statements of a job. -/
def Binds (c : CommonParameters) (name : String) : Prop :=
  name = Names.sweepTag ∨ name = Names.pageSize ∨ (∃ v, c.owner = some (name, v)) ∨
    c.extra.contains name = true

theorem contains_toParameters_iff {c : CommonParameters} {name : String} :
    c.toParameters.contains name = true ↔ c.Binds name := by
  have howner : (c.extra.insertAll c.owner.toList).contains name = true ↔
      (∃ v, c.owner = some (name, v)) ∨ c.extra.contains name = true := by
    cases h : c.owner with
    | none => simp [SortedMap.insertAll]
    | some o =>
      obtain ⟨other, v⟩ := o
      by_cases hname : name = other <;>
        simp [SortedMap.insertAll, SortedMap.contains_insert, hname, Ne.symm]
  simp only [toParameters, SortedMap.contains_insert, Bool.or_eq_true, decide_eq_true_eq, howner,
    Binds]
  tauto

end CommonParameters

/-- A statement is run page after page, up to the first page that affects nothing. -/
inductive BoundStatement.Exhausts (now : Int) (b : BoundStatement) : Graph → Nat → Graph → Prop
  | last {g h} (hpage : g.execute now [b] = .ok (h, [0])) : Exhausts now b g 0 h
  | page {g mid h count n} (hpage : g.execute now [b] = .ok (mid, [count])) (hmore : count ≠ 0)
      (rest : Exhausts now b mid n h) : Exhausts now b g (count + n) h

namespace Job

/-- Every statement is run to its end, one after the other; the rows that they affect. -/
inductive Completes (now : Int) : List JobStatement → Graph → Nat → Graph → Prop
  | nil (g : Graph) : Completes now [] g 0 g
  | cons {j js g mid h count n} (first : j.bound.Exhausts now g count mid)
      (rest : Completes now js mid n h) : Completes now (j :: js) g (count + n) h

/-- A job that reads some names fails exactly if one of them has no value, before it changes
anything; otherwise it runs every statement to its end, each bound to the tag and to a page size
that is not zero. -/
structure AllOrNothing (now : Int) (common : CommonParameters) (Reads : String → Prop) (j : Job) :
    Prop where
  fails_iff : ∀ g, (∃ e h, j.run now g = (.error e, h)) ↔
    ∃ name, Reads name ∧ ¬ common.Binds name
  unchanged : ∀ g e h, j.run now g = (.error e, h) → h = g ∧
    ∃ kind name, e = .missingParameter kind name ∧ Reads name ∧ ¬ common.Binds name
  completes : ∀ g, (∃ n h, j.run now g = (.ok n, h) ∧ Completes now j.statements g n h) ∨
    ∃ name, Reads name ∧ ¬ common.Binds name
  bound : ∀ st ∈ j.statements, st.iterative = true ∧
    st.bound.parameters.find? Names.sweepTag = some (.int common.tag) ∧
    st.bound.parameters.find? Names.pageSize = some (.nat (max common.pageSize 1))

/-- A job of sweeps, each repeated page by page. -/
def ofSweeps (title : String) (statements : List Statement) (common : CommonParameters) : Job :=
  ⟨title, statements.map fun s =>
    (JobStatement.once s common.toParameters).repeated common.pageSize⟩

variable {now : Int} {g h : Graph} {common : CommonParameters} {j : Job} {name title : String}
  {statements : List Statement} {Reads : String → Prop}

theorem run_of_check (hcheck : j.check = .ok ()) : j.run now g = runAll now j.statements g := by
  rw [run, GraphM.bind_of_ok (a := ()) (h := g)]
  simp only [hcheck, GraphM.ofExcept]
  rfl

theorem run_of_check_error {e : GraphError} (hcheck : j.check = .error e) :
    j.run now g = (.error e, g) := by
  rw [run, GraphM.bind_of_error (e := e) (h := g)]
  simp only [hcheck, GraphM.ofExcept]
  rfl

theorem contains_bound_iff : common.bound.contains name = true ↔ common.Binds name := by
  rw [common.contains_bound, CommonParameters.contains_toParameters_iff]

theorem check_ofSweeps (hcheck : (ofSweeps title statements common).check = .ok ()) :
    ∀ s ∈ statements, BoundStatement.check ⟨s, common.bound⟩ = .ok () := by
  intro s hs
  have hst := check_eq_ok_iff.1 hcheck _ (List.mem_map_of_mem hs)
  rwa [common.bound_repeated] at hst

theorem missing_of_check_ofSweeps {e : GraphError}
    (hcheck : (ofSweeps title statements common).check = .error e) :
    ∃ s ∈ statements, ∃ name ∈ s.parameters,
      ¬ common.Binds name ∧ e = .missingParameter s.kind name := by
  obtain ⟨st, hst, he⟩ := exists_of_forM_eq_error hcheck
  obtain ⟨s, hs, rfl⟩ := List.mem_map.1 hst
  rw [common.bound_repeated] at he
  obtain ⟨name, hname, hnone, rfl⟩ := BoundStatement.missing_of_check he
  exact ⟨s, hs, name, hname, fun hb => Bool.eq_false_iff.1 hnone (contains_bound_iff.2 hb), rfl⟩

theorem bound_ofSweeps : ∀ st ∈ (ofSweeps title statements common).statements,
    st.iterative = true ∧ st.bound.parameters.find? Names.sweepTag = some (.int common.tag) ∧
      st.bound.parameters.find? Names.pageSize = some (.nat (max common.pageSize 1)) := by
  intro st hst
  obtain ⟨s, -, rfl⟩ := List.mem_map.1 hst
  rw [common.bound_repeated]
  exact ⟨rfl, common.find?_sweepTag_bound, common.find?_pageSize_bound⟩

theorem exhausts_of_paged {s : Statement} {w : Sweep} {keys : List Nat}
    (hw : s.sweep? common.bound (.int common.tag) = some w)
    (hcheck : BoundStatement.check ⟨s, common.bound⟩ = .ok ())
    (hp : w.Paged (max common.pageSize 1) g keys h) :
    BoundStatement.Exhausts now ⟨s, common.bound⟩ g keys.length h := by
  have hpage : ∀ i : Graph, i.execute now [⟨s, common.bound⟩] =
      .ok (w.strike i ((w.targets i).take (max common.pageSize 1)),
        [((w.targets i).take (max common.pageSize 1)).length]) := fun i =>
    JobStatement.execute_sweep hw hcheck common.find?_sweepTag_bound common.pageSize_bound
  have hpos : 0 < max common.pageSize 1 := Nat.lt_of_lt_of_le Nat.one_pos (Nat.le_max_right _ _)
  induction hp with
  | done hnil =>
    refine .last ?_
    rw [hpage, hnil, List.take_nil, w.strike_nil]
    rfl
  | page hne _ ih =>
    rw [List.length_append]
    exact .page (hpage _) (Sweep.page_smaller hpos hne).1 ih

/-- A sequence of sweeps, as the statements that make them. -/
theorem completes_of_sweeps {n : Nat}
    (hs : ∀ s ∈ statements, (s.sweep? common.bound (.int common.tag)).isSome = true)
    (hcheck : ∀ s ∈ statements, BoundStatement.check ⟨s, common.bound⟩ = .ok ())
    (hr : Sweep.Run (max common.pageSize 1)
      (statements.filterMap (Statement.sweep? common.bound (.int common.tag))) g n h) :
    Completes now (ofSweeps title statements common).statements g n h := by
  induction statements generalizing g n with
  | nil =>
    cases hr
    exact .nil _
  | cons s rest ih =>
    obtain ⟨hsweep, hrest⟩ := List.forall_mem_cons.1 hs
    obtain ⟨w, hw⟩ := Option.isSome_iff_exists.1 hsweep
    obtain ⟨hfirst, hothers⟩ := List.forall_mem_cons.1 hcheck
    rw [List.filterMap_cons_some hw] at hr
    cases hr with
    | cons hp hr =>
      refine .cons ?_ (ih hrest hothers hr)
      rw [common.bound_repeated]
      exact exhausts_of_paged hw hfirst hp

/-- Once its parameters are bound, a job of sweeps is the sequence of them. -/
theorem exists_run_ofSweeps
    (hs : ∀ s ∈ statements, (s.sweep? common.bound (.int common.tag)).isSome = true)
    (hcheck : (ofSweeps title statements common).check = .ok ()) (now : Int) (g : Graph) :
    ∃ n h, (ofSweeps title statements common).run now g = (.ok n, h) ∧
      Sweep.Run (max common.pageSize 1)
        (statements.filterMap (Statement.sweep? common.bound (.int common.tag))) g n h := by
  have hpos : 0 < max common.pageSize 1 := Nat.lt_of_lt_of_le Nat.one_pos (Nat.le_max_right _ _)
  obtain ⟨n, h, hr⟩ := Sweep.exists_run
    (statements.filterMap (Statement.sweep? common.bound (.int common.tag))) g hpos
  refine ⟨n, h, ?_, hr⟩
  rw [run_of_check hcheck]
  exact runAll_sweeps hs hcheck hr

/-- It comes to the end of every statement. -/
theorem exists_completes
    (hs : ∀ s ∈ statements, (s.sweep? common.bound (.int common.tag)).isSome = true)
    (hcheck : (ofSweeps title statements common).check = .ok ()) (now : Int) (g : Graph) :
    ∃ n h, (ofSweeps title statements common).run now g = (.ok n, h) ∧
      Completes now (ofSweeps title statements common).statements g n h := by
  obtain ⟨n, h, hrun, hr⟩ := exists_run_ofSweeps hs hcheck now g
  exact ⟨n, h, hrun, completes_of_sweeps hs (check_ofSweeps hcheck) hr⟩

/-- A job of sweeps lacks nothing but what the text of one of them refers to. -/
theorem allOrNothing_ofSweeps
    (hs : ∀ s ∈ statements, (s.sweep? common.bound (.int common.tag)).isSome = true)
    (hreads : ∀ name, Reads name → ∃ s ∈ statements, name ∈ s.parameters)
    (hnames : ∀ s ∈ statements, ∀ name ∈ s.parameters,
      Reads name ∨ name = Names.sweepTag ∨ name = Names.pageSize) :
    AllOrNothing now common Reads (ofSweeps title statements common) := by
  cases hcheck : (ofSweeps title statements common).check with
  | ok _ =>
    have hbinds : ¬ ∃ name, Reads name ∧ ¬ common.Binds name := by
      rintro ⟨name, hread, hunbound⟩
      obtain ⟨s, hmem, hname⟩ := hreads name hread
      have hpass := BoundStatement.check_eq_ok_iff.1 (check_ofSweeps hcheck s hmem) name hname
      exact hunbound (contains_bound_iff.1 hpass)
    have hnever : ∀ g e h, (ofSweeps title statements common).run now g ≠ (.error e, h) := by
      intro g e h he
      obtain ⟨n, i, hok, -⟩ := exists_completes hs hcheck now g
      cases he.symm.trans hok
    refine ⟨fun g => ⟨fun ⟨e, h, he⟩ => absurd he (hnever g e h), fun hl => absurd hl hbinds⟩,
      fun g e h he => absurd he (hnever g e h), fun g => .inl (exists_completes hs hcheck now g),
      bound_ofSweeps⟩
  | error e =>
    obtain ⟨s, hmem, name, hname, hunbound, rfl⟩ := missing_of_check_ofSweeps hcheck
    have hread : Reads name := by
      rcases hnames s hmem name hname with hread | rfl | rfl
      · exact hread
      · exact absurd (.inl rfl) hunbound
      · exact absurd (.inr (.inl rfl)) hunbound
    have hlacks : ∃ name, Reads name ∧ ¬ common.Binds name := ⟨name, hread, hunbound⟩
    refine ⟨fun g => ⟨fun _ => hlacks, fun _ => ⟨_, g, run_of_check_error hcheck⟩⟩,
      fun g e h he => ?_, fun _ => .inr hlacks, bound_ofSweeps⟩
    cases he.symm.trans (run_of_check_error hcheck)
    exact ⟨rfl, _, name, rfl, hread, hunbound⟩

end Job

/-- The parameters that tell the owners whose nodes a scoped cleanup sweeps. -/
def NodeSchema.ReadsOwner (s : NodeSchema) (name : String) : Prop :=
  ∃ o, s.scopingEdge = some o ∧ ∃ entry ∈ o.target.matcher.mapping,
    entry.2.source = .batchParameter ∧ entry.2.name = name

/-- The parameters that tell the owner whose standalone edges are swept. -/
def EdgeSchema.ReadsOwner (e : EdgeSchema) (name : String) : Prop :=
  ∃ property ∈ [Names.ownerLabel, Names.ownerId], ∃ r,
    e.properties.mapping.ref? property = some r ∧ r.source = .batchParameter ∧ r.name = name

namespace Job

variable {common : CommonParameters} {name : String}

theorem mem_sweepNames_iff {s : NodeSchema} : name ∈ Scope.sweepNames s.scope ↔
    s.ReadsOwner name ∨ name = Names.sweepTag ∨ name = Names.pageSize := by
  simp only [Scope.sweepNames, List.mem_append, List.mem_flatMap, Option.mem_toList,
    List.mem_cons, List.not_mem_nil, or_false]
  refine or_congr_left ⟨?_, ?_⟩
  · rintro ⟨scope, hscope, hname⟩
    obtain ⟨entry, hentry, rfl⟩ := (NodeSchema.mem_comparedNames_scope hscope).1 hname
    have hsource := (NodeSchema.ownerValid_of_mem_scope hscope entry hentry).2.2
    obtain ⟨o, ho, rfl⟩ := Option.map_eq_some_iff.1 hscope
    exact ⟨o, ho, entry, hentry, hsource, rfl⟩
  · rintro ⟨o, ho, entry, hentry, -, rfl⟩
    have hscope : (⟨o.edgeType, o.target⟩ : Scope) ∈ s.scope :=
      Option.map_eq_some_iff.2 ⟨o, ho, rfl⟩
    exact ⟨_, hscope, (NodeSchema.mem_comparedNames_scope hscope).2 ⟨entry, hentry, rfl⟩⟩

theorem allOrNothing_cleanup (now : Int) (s : NodeSchema) (common : CommonParameters) :
    (Job.cleanup s common).AllOrNothing now common s.ReadsOwner := by
  have hjob : Job.cleanup s common =
      ofSweeps ("Cleanup " ++ s.label) s.cleanupStatements common := rfl
  rw [hjob]
  refine allOrNothing_ofSweeps
    (fun _ hst => NodeSchema.isSome_sweep?_of_mem_cleanupStatements hst) (fun name hread => ?_)
    (fun st hst name hname => ?_)
  · refine ⟨_, List.mem_cons_self, ?_⟩
    exact (NodeSchema.mem_parameters_cleanup List.mem_cons_self).2
      (mem_sweepNames_iff.2 (.inl hread))
  · exact mem_sweepNames_iff.1 ((NodeSchema.mem_parameters_cleanup hst).1 hname)

theorem allOrNothing_linkCleanup (now : Int) {e : EdgeSchema} (common : CommonParameters)
    (he : e.IsMatchLink) : ∃ j, Job.linkCleanup e common = .ok j ∧
      j.AllOrNothing now common e.ReadsOwner := by
  obtain ⟨source, ownerLabel, ownerId, hsource, hlabel, hid, hstatement⟩ :=
    e.exists_cleanupStatement he
  have hnames : ∀ name,
      name ∈ (Statement.sweepLinks ⟨source.label, e.pattern, ownerLabel, ownerId⟩).parameters ↔
        e.ReadsOwner name ∨ name = Names.sweepTag ∨ name = Names.pageSize := by
    intro name
    have hread : e.ReadsOwner name ↔
        name ∈ ownerLabel.batchNames ∨ name ∈ ownerId.batchNames := by
      simp [EdgeSchema.ReadsOwner, hlabel, hid, PropertyRef.mem_batchNames]
    rw [EdgeSchema.mem_parameters_sweepLinks hsource hlabel hid, hread]
    tauto
  refine ⟨ofSweeps ("Cleanup " ++ e.edgeType ++ " match-links")
    [.sweepLinks ⟨source.label, e.pattern, ownerLabel, ownerId⟩] common, ?_, ?_⟩
  · rw [linkCleanup, hstatement]
    rfl
  · refine allOrNothing_ofSweeps (fun st hst => ?_)
      (fun name hread => ⟨_, List.mem_singleton_self _, (hnames name).2 (.inl hread)⟩)
      (fun st hst name hname => ?_)
    · rw [List.mem_singleton.1 hst]
      rfl
    · rw [List.mem_singleton.1 hst] at hname
      exact (hnames name).1 hname

/-- A compiled cleanup job is never left half done. It fails exactly if a parameter that tells the
owner has no value, and then nothing has changed; otherwise it runs every statement to its end. -/
theorem cleanup_never_half_done (now : Int) (common : CommonParameters) :
    (∀ s : NodeSchema, (Job.cleanup s common).AllOrNothing now common s.ReadsOwner) ∧
      ∀ e : EdgeSchema, e.IsMatchLink → ∃ j, Job.linkCleanup e common = .ok j ∧
        j.AllOrNothing now common e.ReadsOwner :=
  ⟨fun s => allOrNothing_cleanup now s common, fun _ he => allOrNothing_linkCleanup now common he⟩

/-- The cleanup of the project's buckets runs to its end; that of the standalone edges, whose owner
is not told, changes nothing. -/
theorem cleanup_never_half_done_of_sample :
    (∃ n h, (Job.cleanup Sample.bucket Sample.common).run 9 Sample.stored = (.ok n, h) ∧
      Completes 9 (Job.cleanup Sample.bucket Sample.common).statements Sample.stored n h) ∧
    Sample.granted.IsMatchLink ∧ ∃ j e, Job.linkCleanup Sample.granted Sample.common = .ok j ∧
      j.run 9 Sample.stored = (.error e, Sample.stored) := by
  obtain ⟨hnodes, hlinks⟩ := cleanup_never_half_done 9 Sample.common
  have hlink : Sample.granted.IsMatchLink := by decide
  obtain ⟨j, hj, hrun⟩ := hlinks Sample.granted hlink
  refine ⟨?_, hlink, ?_⟩
  · rcases (hnodes Sample.bucket).completes Sample.stored with hdone | hlacks
    · exact hdone
    · obtain ⟨_, ⟨o, ho, entry, hentry, -, rfl⟩, hunbound⟩ := hlacks
      obtain rfl := Option.some_inj.1 ho
      obtain rfl := List.mem_singleton.1 hentry
      exact absurd (.inr (.inr (.inl ⟨_, rfl⟩))) hunbound
  · have hlacks : Sample.granted.ReadsOwner "OWNER_ID" ∧ ¬ Sample.common.Binds "OWNER_ID" := by
      refine ⟨⟨Names.ownerId, by decide, .batch "OWNER_ID", rfl, rfl, rfl⟩, ?_⟩
      rw [← contains_bound_iff]
      decide
    obtain ⟨e, h, he⟩ := (hrun.fails_iff Sample.stored).2 ⟨_, hlacks⟩
    obtain ⟨rfl, -⟩ := hrun.unchanged _ e h he
    exact ⟨j, e, hj, he⟩

end Job

end GraphSync
