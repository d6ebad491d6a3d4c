import GraphSync.Job.Basic
import GraphSync.Proofs.Cleanup.Paging
import GraphSync.Proofs.Statement.Names

/-! A cleanup job runs to its end, as the sequence of its sweeps, once its parameters are bound. -/
namespace GraphSync

namespace JobStatement

variable {now : Int} {g h : Graph} {s : Statement} {params : Parameters} {tag : Json} {size : Nat}
  {w : Sweep}

theorem execute_sweep (hw : s.sweep? params tag = some w)
    (hcheck : BoundStatement.check ⟨s, params⟩ = .ok ())
    (htag : params.find? Names.sweepTag = some tag)
    (hsize : Parameters.pageSize params = .ok size) :
    g.execute now [⟨s, params⟩] =
      .ok (w.strike g ((w.targets g).take size), [((w.targets g).take size).length]) := by
  simp only [Graph.execute, hcheck, Graph.apply_sweep hw htag hsize, bind, Except.bind, pure,
    Except.pure]

/-- A repeated sweep never fails: every page but the last takes something away. -/
theorem runPages_of_paged (now : Int) {keys : List Nat} (hw : s.sweep? params tag = some w)
    (hcheck : BoundStatement.check ⟨s, params⟩ = .ok ())
    (htag : params.find? Names.sweepTag = some tag)
    (hsize : Parameters.pageSize params = .ok size) (hpos : 0 < size)
    (hp : w.Paged size g keys h) (counted : Nat) :
    runPages now ⟨s, params⟩ counted g = (.ok (counted + keys.length), h) := by
  induction hp generalizing counted with
  | @done g hnil =>
    rw [runPages, execute_sweep hw hcheck htag hsize]
    simp [hnil, total, w.strike_nil]
  | @page g keys h hne _ ih =>
    obtain ⟨hcount, hlt⟩ := Sweep.page_smaller hpos hne
    rw [runPages, execute_sweep hw hcheck htag hsize]
    simp only [total, List.sum_singleton, hcount, if_false, hlt, if_true, ih, List.length_append,
      Nat.add_assoc]

end JobStatement

namespace CommonParameters

/-- What the statements of a cleanup are bound to; a page is never empty. -/
def bound (c : CommonParameters) : Parameters :=
  c.toParameters.insert Names.pageSize (.nat (max c.pageSize 1))

variable (c : CommonParameters)

theorem find?_sweepTag_toParameters : c.toParameters.find? Names.sweepTag = some (.int c.tag) := by
  rw [toParameters, SortedMap.find?_insert, if_neg (by decide), SortedMap.find?_insert, if_pos rfl]

theorem find?_sweepTag_bound : c.bound.find? Names.sweepTag = some (.int c.tag) := by
  rw [bound, SortedMap.find?_insert, if_neg (by decide), find?_sweepTag_toParameters]

theorem find?_pageSize_bound :
    c.bound.find? Names.pageSize = some (.nat (max c.pageSize 1)) := by
  rw [bound, SortedMap.find?_insert, if_pos rfl]

theorem pageSize_bound : Parameters.pageSize c.bound = .ok (max c.pageSize 1) := by
  have hcount : Number.count? (.int (max c.pageSize 1 : Nat)) = some (max c.pageSize 1) := by
    rw [Number.count?, if_pos (Int.natCast_nonneg _), Int.toNat_natCast]
  simp only [Parameters.pageSize, Parameters.require, find?_pageSize_bound, bind, Except.bind,
    Json.nat, Json.int, hcount]

theorem contains_bound (name : String) : c.bound.contains name = c.toParameters.contains name := by
  by_cases h : name = Names.pageSize <;> simp [bound, toParameters, SortedMap.contains_insert, h]

theorem bound_repeated (s : Statement) :
    ((JobStatement.once s c.toParameters).repeated c.pageSize).bound = ⟨s, c.bound⟩ := rfl

end CommonParameters

namespace Job

variable {now : Int} {g h : Graph} {common : CommonParameters}

theorem check_cons_eq_ok_iff {name : String} {j : JobStatement} {js : List JobStatement} :
    check ⟨name, j :: js⟩ = .ok () ↔ j.bound.check = .ok () ∧ check ⟨name, js⟩ = .ok () := by
  cases h : j.bound.check <;> simp [check, h, bind, Except.bind]

theorem check_eq_ok_iff {j : Job} :
    j.check = .ok () ↔ ∀ s ∈ j.statements, s.bound.check = .ok () := by
  obtain ⟨name, statements⟩ := j
  induction statements with
  | nil => simp [check, pure, Except.pure]
  | cons s rest ih => rw [check_cons_eq_ok_iff, ih, List.forall_mem_cons]

/-- Once its parameters are bound, a list of sweeps runs to its end. -/
theorem runAll_sweeps {name : String} {statements : List Statement} {n : Nat}
    (hs : ∀ s ∈ statements, (s.sweep? common.bound (.int common.tag)).isSome = true)
    (hcheck : check ⟨name, statements.map fun s =>
      (JobStatement.once s common.toParameters).repeated common.pageSize⟩ = .ok ())
    (hr : Sweep.Run (max common.pageSize 1)
      (statements.filterMap (Statement.sweep? common.bound (.int common.tag))) g n h) :
    runAll now (statements.map fun s =>
      (JobStatement.once s common.toParameters).repeated common.pageSize) g = (.ok n, h) := by
  induction statements generalizing g n with
  | nil =>
    cases hr
    rfl
  | cons s rest ih =>
    obtain ⟨hsweep, hrest⟩ := List.forall_mem_cons.1 hs
    obtain ⟨w, hw⟩ := Option.isSome_iff_exists.1 hsweep
    obtain ⟨hfirst, hothers⟩ := check_cons_eq_ok_iff.1 hcheck
    rw [List.filterMap_cons_some hw] at hr
    cases hr with
    | @cons _ _ _ mid _ keys n hp hr =>
      have hpages := JobStatement.runPages_of_paged now hw hfirst
        common.find?_sweepTag_bound common.pageSize_bound (Nat.lt_of_lt_of_le Nat.one_pos
          (Nat.le_max_right _ _)) hp 0
      rw [List.map_cons, runAll, GraphM.bind_of_ok (a := keys.length) (h := mid),
        GraphM.bind_of_ok (ih hrest hothers hr)]
      · rfl
      · rw [Nat.zero_add] at hpages
        exact hpages

end Job

namespace NodeSchema

variable {now : Int} {g h : Graph} {s : NodeSchema} {common : CommonParameters}

/-- What the cleanup of a schema takes away, statement by statement. -/
def sweeps (s : NodeSchema) (params : Parameters) (tag : Json) : List Sweep :=
  s.cleanupStatements.filterMap (Statement.sweep? params tag)

theorem isSome_sweep?_of_mem_cleanupStatements {params : Parameters} {tag : Json}
    {statement : Statement} (hm : statement ∈ s.cleanupStatements) :
    (statement.sweep? params tag).isSome = true := by
  simp only [cleanupStatements, ownershipSweep, List.cons_append, List.mem_cons, List.mem_append,
    List.mem_map, Option.mem_toList] at hm
  rcases hm with rfl | ⟨e, -, rfl⟩ | hm
  · rfl
  · rfl
  · split at hm
    · cases hm
      rfl
    · obtain ⟨e, -, rfl⟩ := Option.map_eq_some_iff.1 hm
      rfl

/-- A cleanup can run once the owner of its scope has a value. -/
theorem check_cleanup_iff : (Job.cleanup s common).check = .ok () ↔
    ∀ scope ∈ s.scope, ∀ entry ∈ scope.owner.matcher.mapping,
      common.toParameters.contains entry.2.name = true := by
  simp only [Job.check_eq_ok_iff, Job.cleanup, List.forall_mem_map,
    CommonParameters.bound_repeated, BoundStatement.check_eq_ok_iff,
    CommonParameters.contains_bound]
  constructor
  · intro h scope hscope entry hentry
    refine h _ List.mem_cons_self _ ((mem_parameters_cleanup List.mem_cons_self).2 ?_)
    rw [Option.mem_def.1 hscope, Scope.sweepNames_some]
    exact List.mem_append_left _ ((mem_comparedNames_scope hscope).2 ⟨entry, hentry, rfl⟩)
  · intro h st hst name hname
    have hnames := (mem_parameters_cleanup hst).1 hname
    simp only [Scope.sweepNames, List.mem_append, List.mem_flatMap, Option.mem_toList,
      List.mem_cons, List.not_mem_nil, or_false] at hnames
    rcases hnames with ⟨scope, hscope, hcompared⟩ | rfl | rfl
    · obtain ⟨entry, hentry, rfl⟩ := (mem_comparedNames_scope hscope).1 hcompared
      exact h scope hscope entry hentry
    · simp [CommonParameters.toParameters, SortedMap.contains_insert]
    · simp [CommonParameters.toParameters, SortedMap.contains_insert]

/-- Its sweeps are what a cleanup does, once its parameters are bound. -/
theorem run_of_sweeps (now : Int) {n : Nat} (hcheck : (Job.cleanup s common).check = .ok ())
    (hr : Sweep.Run (max common.pageSize 1) (s.sweeps common.bound (.int common.tag)) g n h) :
    (Job.cleanup s common).run now g = (.ok n, h) := by
  rw [Job.run, GraphM.bind_of_ok (a := ()) (h := g)]
  · exact Job.runAll_sweeps (fun _ hm => isSome_sweep?_of_mem_cleanupStatements hm) hcheck hr
  · simp only [hcheck, GraphM.ofExcept]
    rfl

/-- A cleanup runs to its end once its parameters are bound. -/
theorem run_cleanup (now : Int) (g : Graph) (hcheck : (Job.cleanup s common).check = .ok ()) :
    ∃ n h, Sweep.Run (max common.pageSize 1) (s.sweeps common.bound (.int common.tag)) g n h ∧
      (Job.cleanup s common).run now g = (.ok n, h) := by
  have hpos : 0 < max common.pageSize 1 := Nat.lt_of_lt_of_le Nat.one_pos (Nat.le_max_right _ _)
  obtain ⟨n, h, hr⟩ := Sweep.exists_run (s.sweeps common.bound (.int common.tag)) g hpos
  exact ⟨n, h, hr, run_of_sweeps now hcheck hr⟩

theorem check_of_run {n : Nat} (hrun : (Job.cleanup s common).run now g = (.ok n, h)) :
    (Job.cleanup s common).check = .ok () := by
  cases hcheck : (Job.cleanup s common).check with
  | ok => rfl
  | error e =>
    rw [Job.run, GraphM.bind_of_error (e := e) (h := g)] at hrun
    · cases hrun
    · simp only [hcheck, GraphM.ofExcept]
      rfl

/-- A cleanup that succeeds is the sequence of its sweeps. -/
theorem sweeps_of_run {n : Nat} (hrun : (Job.cleanup s common).run now g = (.ok n, h)) :
    Sweep.Run (max common.pageSize 1) (s.sweeps common.bound (.int common.tag)) g n h := by
  obtain ⟨m, i, hr, hi⟩ := run_cleanup now g (check_of_run hrun)
  cases hrun.symm.trans hi
  exact hr

end NodeSchema

end GraphSync
