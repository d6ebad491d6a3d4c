import GraphSync.Proofs.Cleanup.Effect
import GraphSync.Proofs.Graph.Bindings

/-! When the size of its pages makes no difference to what a cleanup leaves. -/
namespace GraphSync

namespace Sweep

variable {v w : Sweep} {ws : List Sweep} {g h i : Graph} {size other n m key : Nat}
  {keys : List Nat} {x : Edge}

/-- Every sweep is steady on what the ones before it leave. -/
def SteadyRun : List Sweep → Graph → Prop
  | [], _ => True
  | w :: ws, g => w.Steady g ∧ SteadyRun ws (w.strike g (w.targets g))

theorem ext (ht : v.targets = w.targets) (hs : v.strike = w.strike) : v = w := by
  cases v
  cases w
  cases ht
  cases hs
  rfl

theorem ofNodes_congr {params other : Parameters} {tag : Json} {label : String}
    {scope : Option Scope}
    (hscope : ∀ g key, Graph.inScope g params scope key = Graph.inScope g other scope key) :
    ofNodes params tag label scope = ofNodes other tag label scope := by
  refine ext (funext fun g => ?_) rfl
  simp only [ofNodes, Graph.staleNodes, hscope]

/-- A page that holds all that is found is the last. -/
theorem exists_paged_all (w : Sweep) (g : Graph) :
    ∃ size, 0 < size ∧ w.Paged size g (w.targets g) (w.strike g (w.targets g)) := by
  by_cases hne : w.targets g = []
  · refine ⟨1, Nat.one_pos, ?_⟩
    rw [hne, w.strike_nil]
    exact .done hne
  · have hnil : w.targets (w.strike g (w.targets g)) = [] :=
      List.eq_nil_iff_forall_not_mem.2 fun key hk => w.gone (w.mono (w.within _ _) hk) hk
    have hall : (w.targets g).take (w.targets g).length = w.targets g := List.take_length
    have hpage : w.Paged (w.targets g).length g ((w.targets g).take (w.targets g).length ++ [])
        (w.strike g (w.targets g)) := .page hne (by rw [hall]; exact .done hnil)
    rw [List.append_nil, hall] at hpage
    exact ⟨_, List.length_pos_iff.2 hne, hpage⟩

theorem Paged.eq_of_steady (hs : w.Steady g) (hp : w.Paged size g keys h) :
    h = w.strike g (w.targets g) := by
  rw [hp.eq_strike, hp.eq_targets hs]

/-- Steady sweeps leave the same at every page size. -/
theorem Run.eq_of_steadyRun (hs : SteadyRun ws g) (hr : Run size ws g n h)
    (ho : Run other ws g m i) : i = h := by
  induction ws generalizing g n m with
  | nil =>
    cases hr
    cases ho
    rfl
  | cons w ws ih =>
    cases hr with
    | cons first rest =>
      cases ho with
      | cons first' rest' =>
        rw [first.eq_of_steady hs.1] at rest
        rw [first'.eq_of_steady hs.1] at rest'
        exact ih hs.2 rest rest'

/-- Whatever the sizes of their pages, the sweeps leave the same nodes and edges. -/
def SameLeft (ws : List Sweep) (g : Graph) : Prop :=
  ∀ {size other n m h i}, 0 < size → 0 < other → Run size ws g n h → Run other ws g m i →
    h.nodes = i.nodes ∧ h.edges = i.edges

theorem SameLeft.tail (hs : SameLeft (w :: ws) g) (hw : w.Steady g) :
    SameLeft ws (w.strike g (w.targets g)) := by
  intro size other n m h i hsize hother hr ho
  obtain ⟨keys, mid, hp⟩ := w.exists_paged g hsize
  obtain ⟨keys', mid', hp'⟩ := w.exists_paged g hother
  rw [← hp.eq_of_steady hw] at hr
  rw [← hp'.eq_of_steady hw] at ho
  exact hs hsize hother (.cons hp hr) (.cons hp' ho)

theorem steadyRun_of_forall (hws : ∀ w ∈ ws, ∀ g, w.Steady g) (g : Graph) : SteadyRun ws g := by
  induction ws generalizing g with
  | nil => trivial
  | cons w ws ih =>
    obtain ⟨hw, hrest⟩ := List.forall_mem_cons.1 hws
    exact ⟨hw g, ih hrest _⟩

/-- An edge that no sweep finds in any part of a graph outlasts them. -/
theorem Run.keeps_edge {start : Graph} (hr : Run size ws g n h) (hg : g.Within start)
    (hstrike : ∀ w ∈ ws, w.strike = Graph.removeEdges)
    (hmiss : ∀ i : Graph, i.Within start → i.edges.find? key = some x →
      ∀ w ∈ ws, key ∉ w.targets i)
    (hx : g.edges.find? key = some x) : h.edges.find? key = some x := by
  induction hr with
  | nil => exact hx
  | @cons w ws g mid h keys n first _ ih =>
    have hkey : key ∉ keys := fun hk =>
      hmiss g hg hx w List.mem_cons_self (first.mem_targets hk)
    refine ih (first.within.trans hg) (fun v hv => hstrike v (List.mem_cons_of_mem _ hv))
      (fun i hi hxi v hv => hmiss i hi hxi v (List.mem_cons_of_mem _ hv)) ?_
    rw [first.eq_strike, hstrike w List.mem_cons_self, Graph.find?_edges_removeEdges,
      if_neg hkey, hx]

end Sweep

namespace NodeSchema

variable {s : NodeSchema} {params : Parameters} {tag : Json} {g h : Graph}

/-- Other edges of the type by which cleanup tells its owners come to the schema's nodes. -/
def OwnershipInward (s : NodeSchema) : Prop :=
  ∀ o, s.scopingEdge = some o → ∀ e ∈ s.edges, e.edgeType = o.edgeType → e.direction = .inward

/-- An edge of ownership to a node that is not owned is found by no sweep. -/
theorem not_mem_targets_of_not_isOwned {es : List EdgeSchema} {scope : Scope} {i : Graph}
    {key : Nat} {x : Edge} (hs : s.scope = some scope)
    (hes : ∀ e ∈ es, e.edgeType = scope.edgeType → e.direction = .inward)
    (ht : x.edgeType = scope.edgeType) (hx : g.edges.find? key = some x)
    (ho : ¬ g.isOwned params scope x.finish = true) (hi : i.Within g)
    (hxi : i.edges.find? key = some x) :
    ∀ w ∈ es.map (s.edgeSweep params tag) ++ s.ownerSweeps params tag, key ∉ w.targets i := by
  intro w hw hk
  simp only [ownerSweeps, ownershipSweep, hs, Option.bind_some, Statement.sweep?,
    Option.toList_some, List.mem_append, List.mem_map, List.mem_singleton] at hw
  rcases hw with ⟨e, he, rfl⟩ | rfl
  · obtain ⟨y, hy, -, hc⟩ := Graph.mem_staleEdges.1 hk
    cases hxi.symm.trans hy
    have htype : e.edgeType = scope.edgeType :=
      (Graph.edgeType_of_isScopedEdge hc).symm.trans ht
    simp only [Graph.isScopedEdge, Bool.and_eq_true] at hc
    have hend : (x.ends e.pattern.direction).1 = x.finish := by
      rw [EdgeSchema.pattern, hes e he htype]
      rfl
    rw [hend, hs] at hc
    exact ho (hi.isOwned hc.2)
  · obtain ⟨y, hy, -, hc⟩ := Graph.mem_staleEdges.1 hk
    cases hxi.symm.trans hy
    simp only [Graph.isOwnership, Bool.and_eq_true] at hc
    exact ho (Graph.isOwned_iff.2 ⟨key, x, hx, ht, rfl, hi.isOwner hc.2⟩)

theorem steady_of_mem_ownerSweeps {w : Sweep} (hw : w ∈ s.ownerSweeps params tag) (g : Graph) :
    w.Steady g := by
  simp only [ownerSweeps, Option.mem_toList, Option.bind_eq_some_iff, ownershipSweep] at hw
  obtain ⟨statement, hs, hw⟩ := hw
  split at hs
  · cases hs
    cases hw
    exact Sweep.steady_isOwnership
  · obtain ⟨o, -, rfl⟩ := Option.map_eq_some_iff.1 hs
    cases hw
    exact Sweep.steady_unscoped

/-- If pages of every size leave the same edges, a sweep of edges of ownership takes all that it
finds one by one: what it passed over would not be found by any sweep after it. -/
theorem steady_edgeSweep_of_sameLeft {e : EdgeSchema} {es : List EdgeSchema} {scope : Scope}
    (hs : s.scope = some scope)
    (hes : ∀ f ∈ e :: es, f.edgeType = scope.edgeType → f.direction = .inward)
    (he : e.edgeType = scope.edgeType)
    (hsame : Sweep.SameLeft (s.edgeSweep params tag e ::
      (es.map (s.edgeSweep params tag) ++ s.ownerSweeps params tag)) g) :
    (s.edgeSweep params tag e).Steady g := by
  obtain ⟨keys, mid, hp⟩ := (s.edgeSweep params tag e).exists_paged g Nat.one_pos
  obtain ⟨n, h, hr⟩ := Sweep.exists_run
    (es.map (s.edgeSweep params tag) ++ s.ownerSweeps params tag) mid Nat.one_pos
  obtain ⟨size, hsize, hall⟩ := (s.edgeSweep params tag e).exists_paged_all g
  obtain ⟨m, i, ho⟩ := Sweep.exists_run
    (es.map (s.edgeSweep params tag) ++ s.ownerSweeps params tag) _ hsize
  have hedges := (hsame Nat.one_pos hsize (.cons hp hr) (.cons hall ho)).2
  refine hp.steady fun key hk => Decidable.byContradiction fun hkey => ?_
  obtain ⟨x, hx, hstale, hc⟩ := Graph.mem_staleEdges.1 hk
  have hgone : i.edges.find? key = none := by
    refine Option.eq_none_iff_forall_ne_some.2 fun y hy => ?_
    have hleft := ho.within.edge hy
    rw [show (s.edgeSweep params tag e).strike = Graph.removeEdges from rfl,
      Graph.find?_edges_removeEdges, if_pos hk] at hleft
    cases hleft
  have hmid : mid.edges.find? key = some x := by
    rw [hp.eq_strike, show (s.edgeSweep params tag e).strike = Graph.removeEdges from rfl,
      Graph.find?_edges_removeEdges, if_neg hkey, hx]
  -- passed over, the edge keeps its pattern, so its node has lost its last owner
  have horphan : ¬ mid.isOwned params scope x.finish = true := by
    intro howned
    have hfound : key ∈ (s.edgeSweep params tag e).targets mid := by
      refine Graph.mem_staleEdges.2 ⟨x, hmid, hstale, ?_⟩
      have hnodes : mid.nodes = g.nodes := by
        rw [hp.eq_strike]
        rfl
      simp only [Graph.isScopedEdge, Graph.hasPattern, Graph.hasLabel, hnodes,
        Bool.and_eq_true] at hc ⊢
      refine ⟨hc.1, ?_⟩
      have hend : (x.ends e.pattern.direction).1 = x.finish := by
        rw [EdgeSchema.pattern, hes e List.mem_cons_self he]
        rfl
      rw [hend, hs]
      exact howned
    rw [hp.targets_eq_nil] at hfound
    cases hfound
  have htype : x.edgeType = scope.edgeType := (Graph.edgeType_of_isScopedEdge hc).trans he
  have hkept := hr.keeps_edge (.refl mid) (fun w hw => strike_eq_removeEdges hw)
    (fun i hi hxi => not_mem_targets_of_not_isOwned hs
      (fun f hf => hes f (List.mem_cons_of_mem _ hf)) htype hmid horphan hi hxi) hmid
  rw [hedges, hgone] at hkept
  cases hkept

theorem steadyRun_of_sameLeft {es : List EdgeSchema}
    (hes : ∀ scope, s.scope = some scope → ∀ f ∈ es, f.edgeType = scope.edgeType →
      f.direction = .inward)
    (hsame : Sweep.SameLeft (es.map (s.edgeSweep params tag) ++ s.ownerSweeps params tag) g) :
    Sweep.SteadyRun (es.map (s.edgeSweep params tag) ++ s.ownerSweeps params tag) g := by
  induction es generalizing g with
  | nil => exact Sweep.steadyRun_of_forall (fun w hw => steady_of_mem_ownerSweeps hw) g
  | cons e es ih =>
    have hsteady : (s.edgeSweep params tag e).Steady g := by
      by_cases hown : ∃ scope, s.scope = some scope ∧ e.edgeType = scope.edgeType
      · obtain ⟨scope, hs, he⟩ := hown
        exact steady_edgeSweep_of_sameLeft hs (hes scope hs) he hsame
      · exact Sweep.steady_isScopedEdge fun scope hs he => hown ⟨scope, hs, he⟩
    exact ⟨hsteady, ih (fun scope hs f hf => hes scope hs f (List.mem_cons_of_mem _ hf))
      (hsame.tail hsteady)⟩

/-- If pages of every size leave the same nodes, stale nodes go one by one as well. -/
theorem steady_ofNodes_of_sameLeft
    (hsame : Sweep.SameLeft (s.sweeps params tag) g) :
    (Sweep.ofNodes params tag s.label s.scope).Steady g := by
  rw [sweeps_eq] at hsame
  obtain ⟨keys, mid, hp⟩ :=
    (Sweep.ofNodes params tag s.label s.scope).exists_paged g Nat.one_pos
  obtain ⟨n, h, hr⟩ := Sweep.exists_run
    (s.edges.map (s.edgeSweep params tag) ++ s.ownerSweeps params tag) mid Nat.one_pos
  obtain ⟨size, hsize, hall⟩ := (Sweep.ofNodes params tag s.label s.scope).exists_paged_all g
  obtain ⟨m, i, ho⟩ := Sweep.exists_run
    (s.edges.map (s.edgeSweep params tag) ++ s.ownerSweeps params tag) _ hsize
  have hnodes := (hsame Nat.one_pos hsize (.cons hp hr) (.cons hall ho)).1
  rw [nodes_of_run hr fun w hw => strike_eq_removeEdges hw,
    nodes_of_run ho fun w hw => strike_eq_removeEdges hw, hp.eq_strike] at hnodes
  refine hp.steady fun key hk => Decidable.byContradiction fun hkey => ?_
  obtain ⟨node, hnode, -⟩ := Graph.mem_staleNodes.1 hk
  have hleft : (g.removeNodes keys).nodes.find? key = some node := by
    rw [Graph.find?_nodes_removeNodes, if_neg hkey, hnode]
  have hgone : (g.removeNodes (g.staleNodes params tag s.label s.scope)).nodes.find? key =
      none := by
    rw [Graph.find?_nodes_removeNodes]
    exact if_pos hk
  have hsome := congrArg (·.find? key) hnodes
  exact Option.some_ne_none node (hleft.symm.trans (hsome.trans hgone))

theorem steadyRun_sweeps_of_sameLeft (hinward : s.OwnershipInward)
    (hsame : Sweep.SameLeft (s.sweeps params tag) g) :
    Sweep.SteadyRun (s.sweeps params tag) g := by
  have hnodes := steady_ofNodes_of_sameLeft hsame
  rw [sweeps_eq] at hsame ⊢
  refine ⟨hnodes, steadyRun_of_sameLeft (fun scope hs f hf he => ?_) (hsame.tail hnodes)⟩
  obtain ⟨o, ho, rfl⟩ := scope_eq_some_iff.1 hs
  exact hinward o ho f hf he

end NodeSchema

namespace CommonParameters

variable (c : CommonParameters) (size : Nat) {name : String}

/-- The same parameters with another page size. -/
def paged : CommonParameters := { c with pageSize := size }

theorem find?_bound_paged (hn : name ≠ Names.pageSize) :
    (c.paged size).bound.find? name = c.bound.find? name := by
  simp [bound, toParameters, paged, SortedMap.find?_insert, hn]

theorem contains_paged : (c.paged size).toParameters.contains name =
    c.toParameters.contains name := by
  simp only [toParameters, paged, SortedMap.contains_insert]

end CommonParameters

namespace NodeSchema

variable {s : NodeSchema} {common : CommonParameters} {g h : Graph} {now : Int} {n : Nat}

/-- No property of an owner is compared with the page size. -/
def OwnersUnpaged (s : NodeSchema) : Prop :=
  ∀ o, s.scopingEdge = some o → ∀ e ∈ o.target.matcher.mapping, e.2.name ≠ Names.pageSize

/-- What an owner is compared with does not change with the page size. -/
theorem resolve_paged (hs : s.OwnersUnpaged) {scope : Scope} (hscope : scope ∈ s.scope)
    (size : Nat) : ∀ e ∈ scope.owner.matcher.mapping,
      e.2.resolve .empty (common.paged size).bound = e.2.resolve .empty common.bound := by
  obtain ⟨o, ho, rfl⟩ := scope_eq_some_iff.1 hscope
  exact fun e he => PropertyRef.resolve_congr .empty fun _ =>
    CommonParameters.find?_bound_paged common size (hs o ho e he)

/-- The sweeps of a cleanup do not depend on the page size, only the pages do. -/
theorem sweeps_paged (hs : s.OwnersUnpaged) (size : Nat) (tag : Json) :
    s.sweeps (common.paged size).bound tag = s.sweeps common.bound tag := by
  have hscope : ∀ g key, Graph.inScope g (common.paged size).bound s.scope key =
      Graph.inScope g common.bound s.scope key := by
    intro g key
    exact congrFun (Graph.inScope_of_resolve fun _ hsc => resolve_paged hs hsc size) key
  have hnodes : Sweep.ofNodes (common.paged size).bound tag s.label s.scope =
      .ofNodes common.bound tag s.label s.scope := Sweep.ofNodes_congr hscope
  have hscoped : ∀ p g, Graph.isScopedEdge g (common.paged size).bound s.label s.scope p =
      Graph.isScopedEdge g common.bound s.label s.scope p := by
    intro p g
    funext x
    simp only [Graph.isScopedEdge, hscope]
  have hownership : ∀ scope, s.scope = some scope → ∀ g,
      Graph.isOwnership g (common.paged size).bound s.label scope =
        Graph.isOwnership g common.bound s.label scope := by
    intro scope hsc g
    funext x
    simp only [Graph.isOwnership, Graph.isOwner_of_resolve (resolve_paged hs hsc size)]
  have hedges : s.edgeSweep (common.paged size).bound tag = s.edgeSweep common.bound tag := by
    funext e
    refine Sweep.ext (funext fun g => ?_) rfl
    exact congrArg (g.staleEdges tag) (hscoped e.pattern g)
  have howner : s.ownerSweeps (common.paged size).bound tag = s.ownerSweeps common.bound tag := by
    cases hsc : s.scope with
    | some scope =>
      simp only [ownerSweeps, ownershipSweep, hsc, Option.bind_some, Statement.sweep?]
      refine congrArg (fun w => [w]) (Sweep.ext (funext fun g => ?_) rfl)
      exact congrArg (g.staleEdges tag) (hownership scope hsc g)
    | none =>
      cases ho : s.owner with
      | none => simp only [ownerSweeps, ownershipSweep, hsc, ho, Option.map_none, Option.bind_none]
      | some o =>
        simp only [ownerSweeps, ownershipSweep, hsc, ho, Option.map_some, Option.bind_some,
          Statement.sweep?]
        rw [hsc] at hscoped
        refine congrArg (fun w => [w]) (Sweep.ext (funext fun g => ?_) rfl)
        exact congrArg (g.staleEdges tag) (hscoped o.pattern g)
  rw [sweeps_eq, sweeps_eq, hnodes, hedges, howner]

theorem check_paged (size : Nat) :
    (Job.cleanup s (common.paged size)).check = .ok () ↔ (Job.cleanup s common).check = .ok () := by
  simp only [check_cleanup_iff, CommonParameters.contains_paged]

/-- Whatever the size of its pages, the cleanup succeeds and leaves the nodes and edges of a
graph. -/
def LeavesAtEveryPageSize (s : NodeSchema) (common : CommonParameters) (now : Int)
    (g h : Graph) : Prop :=
  ∀ size, ∃ n i, (Job.cleanup s (common.paged size)).run now g = (.ok n, i) ∧
    i.nodes = h.nodes ∧ i.edges = h.edges

/-- Steadiness of the sweeps of a cleanup. -/
def SteadyCleanup (s : NodeSchema) (common : CommonParameters) (g : Graph) : Prop :=
  Sweep.SteadyRun (s.sweeps common.bound (.int common.tag)) g

/-- What a cleanup leaves is the same at every page size if its sweeps are steady, and only then,
unless edges of the type of ownership leave the schema's nodes. -/
theorem leaves_same_iff_steady (hs : s.OwnersUnpaged)
    (hrun : (Job.cleanup s common).run now g = (.ok n, h)) :
    (s.SteadyCleanup common g → s.LeavesAtEveryPageSize common now g h) ∧
    (s.OwnershipInward → s.LeavesAtEveryPageSize common now g h → s.SteadyCleanup common g) := by
  have hcheck : ∀ size, (Job.cleanup s (common.paged size)).check = .ok () := fun size =>
    (check_paged size).2 (check_of_run hrun)
  have hsweeps : ∀ size m i, (Job.cleanup s (common.paged size)).run now g = (.ok m, i) →
      Sweep.Run (max size 1) (s.sweeps common.bound (.int common.tag)) g m i := by
    intro size m i hi
    rw [← sweeps_paged hs size]
    exact sweeps_of_run hi
  constructor
  · intro hsteady size
    obtain ⟨m, i, -, hi⟩ := run_cleanup now g (hcheck size)
    have heq : i = h := Sweep.Run.eq_of_steadyRun hsteady (sweeps_of_run hrun) (hsweeps size m i hi)
    exact ⟨m, i, hi, by rw [heq], by rw [heq]⟩
  · intro hinward hleaves
    refine steadyRun_sweeps_of_sameLeft hinward fun {size other n m i j} hsize hother hi hj => ?_
    have hfinal : ∀ size m i, 0 < size →
        Sweep.Run size (s.sweeps common.bound (.int common.tag)) g m i →
          i.nodes = h.nodes ∧ i.edges = h.edges := by
      intro size m i hpos hr
      obtain ⟨k, j, hj, hnodes, hedges⟩ := hleaves size
      have hpaged : Sweep.Run (max size 1)
          (s.sweeps (common.paged size).bound (.int common.tag)) g m i := by
        rwa [sweeps_paged hs size, Nat.max_eq_left hpos]
      have hrun' := run_of_sweeps now (hcheck size) hpaged
      cases hrun'.symm.trans hj
      exact ⟨hnodes, hedges⟩
    have hl := hfinal _ _ _ hsize hi
    have hr := hfinal _ _ _ hother hj
    exact ⟨hl.1.trans hr.1.symm, hl.2.trans hr.2.symm⟩

/-- With owners apart from the schema's nodes and a type of their own for ownership, as in an
unscoped cleanup, every sweep is steady. -/
theorem steadyCleanup_of_apart (ha : s.OwnersApart g) (ht : s.OwnershipApart) :
    s.SteadyCleanup common g := by
  rw [SteadyCleanup, sweeps_eq]
  refine ⟨Sweep.steady_ofNodes ha, Sweep.steadyRun_of_forall (fun w hw i => ?_) _⟩
  rcases List.mem_append.1 hw with hw | hw
  · obtain ⟨e, he, rfl⟩ := List.mem_map.1 hw
    refine Sweep.steady_isScopedEdge fun scope hs => ?_
    obtain ⟨o, ho, rfl⟩ := scope_eq_some_iff.1 hs
    exact ht o ho e he
  · exact steady_of_mem_ownerSweeps hw i

/-- Pages of every size leave the same of the sample. -/
theorem leaves_same_iff_steady_of_sample : Sample.bucket.OwnershipInward ∧
    ∃ n h, (Job.cleanup Sample.bucket Sample.common).run 9 Sample.stored = (.ok n, h) ∧
      Sample.bucket.SteadyCleanup Sample.common Sample.stored ∧
      Sample.bucket.LeavesAtEveryPageSize Sample.common 9 Sample.stored h := by
  obtain ⟨n, h, -, hrun⟩ := run_cleanup 9 Sample.stored Sample.check_cleanup
  have hunpaged : Sample.bucket.OwnersUnpaged := by
    intro o ho
    cases ho
    decide
  have hsteady : Sample.bucket.SteadyCleanup Sample.common Sample.stored :=
    steadyCleanup_of_apart (by decide) (by decide)
  have hinward : Sample.bucket.OwnershipInward := by
    intro o ho
    cases ho
    decide
  exact ⟨hinward, n, h, hrun, hsteady, (leaves_same_iff_steady hunpaged hrun).1 hsteady⟩

end NodeSchema

end GraphSync
