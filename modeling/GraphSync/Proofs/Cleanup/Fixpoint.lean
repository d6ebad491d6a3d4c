import GraphSync.Proofs.Cleanup.Effect

/-! A cleanup counts what it takes away, and finds nothing more when it is run once more. -/
namespace GraphSync

namespace Graph

variable {g h : Graph} {params : Parameters} {label : String} {key : Nat} {e : Edge}

/-- The nodes that are no longer there. -/
def lostNodes (g h : Graph) : List Nat := g.nodes.keys.filter fun k => !h.nodes.contains k

/-- The edges that are no longer there though both of their nodes are. -/
def struckEdges (g h : Graph) : List Nat :=
  (g.edges.entries.filter fun b => !h.edges.contains b.1 &&
    (h.nodes.contains b.2.start && h.nodes.contains b.2.finish)).map (·.1)

theorem mem_lostNodes : key ∈ g.lostNodes h ↔
    g.nodes.contains key = true ∧ h.nodes.contains key = false := by
  rw [lostNodes, List.mem_filter, SortedMap.mem_keys, Bool.not_eq_true']

theorem mem_struckEdges : key ∈ g.struckEdges h ↔ ∃ e, g.edges.find? key = some e ∧
    h.edges.contains key = false ∧ h.HasEnds (e.start, e.finish) := by
  simp only [struckEdges, List.mem_map, List.mem_filter, Bool.and_eq_true, Bool.not_eq_true',
    SortedMap.contains_eq_true_iff, Prod.exists, ← SortedMap.find?_eq_some_iff]
  constructor
  · rintro ⟨k, e, ⟨he, hgone, hends⟩, rfl⟩
    exact ⟨e, he, hgone, hends⟩
  · rintro ⟨e, he, hgone, hends⟩
    exact ⟨key, e, ⟨he, hgone, hends⟩, rfl⟩

theorem pairwise_lostNodes (g h : Graph) : (g.lostNodes h).Pairwise (· < ·) :=
  (List.pairwise_map.2 g.nodes.ascending).filter _

theorem pairwise_struckEdges (g h : Graph) : (g.struckEdges h).Pairwise (· < ·) :=
  List.pairwise_map.2 (g.edges.ascending.filter _)

theorem removeEdges_congr {keys others : List Nat} (hk : ∀ key, key ∈ keys ↔ key ∈ others) :
    g.removeEdges keys = g.removeEdges others := by
  have hcontains : keys.contains = others.contains := by
    funext key
    rw [Bool.eq_iff_iff, List.contains_iff_mem, List.contains_iff_mem, hk]
  rw [removeEdges, removeEdges, hcontains]

/-- A removal of nodes, and then of edges that still have both of theirs, is told from its result:
the nodes first. -/
theorem lostNodes_of_removed {nodes edges : List Nat} (hsorted : nodes.Pairwise (· < ·))
    (hnodes : ∀ key ∈ nodes, ∃ n, g.nodes.find? key = some n) :
    g.lostNodes ((g.removeNodes nodes).removeEdges edges) = nodes := by
  refine (pairwise_lostNodes _ _).eq_of_mem_iff hsorted fun key => ?_
  rw [mem_lostNodes, SortedMap.contains, SortedMap.contains, removeEdges, find?_nodes_removeNodes]
  constructor
  · rintro ⟨hthere, hgone⟩
    by_contra hk
    rw [if_neg hk, hthere] at hgone
    cases hgone
  · intro hk
    obtain ⟨n, hn⟩ := hnodes key hk
    rw [hn, if_pos hk]
    exact ⟨rfl, rfl⟩

theorem mem_struckEdges_of_removed {nodes edges : List Nat}
    (hedges : ∀ key ∈ edges, ∃ e, (g.removeNodes nodes).edges.find? key = some e ∧
      (g.removeNodes nodes).HasEnds (e.start, e.finish)) :
    key ∈ g.struckEdges ((g.removeNodes nodes).removeEdges edges) ↔ key ∈ edges := by
  rw [mem_struckEdges, SortedMap.contains, find?_edges_removeEdges]
  constructor
  · rintro ⟨e, he, hgone, ⟨a, ha⟩, b, hb⟩
    by_contra hk
    rw [removeEdges, find?_nodes_removeNodes] at ha hb
    have hstart : e.start ∉ nodes := fun hs => by simp [hs] at ha
    have hfinish : e.finish ∉ nodes := fun hf => by simp [hf] at hb
    rw [if_neg hk, find?_edges_removeNodes, he] at hgone
    simp [hstart, hfinish] at hgone
  · intro hk
    obtain ⟨e, he, hends⟩ := hedges key hk
    refine ⟨e, (within_removeNodes g nodes).edge he, ?_, hends⟩
    rw [if_pos hk]
    rfl

theorem hasEnds_of_hasPattern {p : EdgePattern} (hp : g.hasPattern label p e = true) :
    g.HasEnds (e.start, e.finish) := by
  simp only [hasPattern, Bool.and_eq_true] at hp
  obtain ⟨n, hn, -⟩ := hasLabel_iff.1 hp.1.2
  obtain ⟨m, hm, -⟩ := hasLabel_iff.1 hp.2
  obtain ⟨_, direction, _⟩ := p
  cases direction with
  | inward => exact ⟨⟨m, hm⟩, n, hn⟩
  | outward => exact ⟨⟨n, hn⟩, m, hm⟩

theorem hasEnds_of_isOwnership {s : Scope} (ho : g.isOwnership params label s e = true) :
    g.HasEnds (e.start, e.finish) := by
  simp only [isOwnership, Bool.and_eq_true] at ho
  obtain ⟨n, hn, -⟩ := hasLabel_iff.1 ho.1.2
  obtain ⟨m, hm, -⟩ := isOwner_iff.1 ho.2
  exact ⟨⟨m, hm⟩, n, hn⟩

end Graph

namespace Sweep

variable {ws : List Sweep} {size n : Nat} {g h : Graph}

/-- A graph in which no sweep finds anything stays as it is. -/
theorem run_of_targets_eq_nil (hws : ∀ w ∈ ws, w.targets g = []) : Run size ws g 0 g := by
  induction ws with
  | nil => exact .nil g
  | cons w ws ih =>
    obtain ⟨hw, hrest⟩ := List.forall_mem_cons.1 hws
    exact .cons (.done hw) (ih hrest)

/-- Later sweeps only take away, so what an earlier one has not found it does not find after. -/
theorem Run.targets_eq_nil (hr : Run size ws g n h) : ∀ w ∈ ws, w.targets h = [] := by
  induction hr with
  | nil => exact fun w hw => absurd hw List.not_mem_nil
  | cons first rest ih =>
    refine List.forall_mem_cons.2 ⟨List.eq_nil_iff_forall_not_mem.2 fun key hk => ?_, ih⟩
    have hmid := Sweep.mono _ rest.within hk
    rw [first.targets_eq_nil] at hmid
    exact absurd hmid List.not_mem_nil

/-- Sweeps of edges take as many edges as they count, each once and each between two nodes. -/
theorem Run.exists_removeEdges (hr : Run size ws g n h)
    (hstrike : ∀ w ∈ ws, w.strike = Graph.removeEdges)
    (hfinds : ∀ w ∈ ws, ∀ {i : Graph} {key}, key ∈ w.targets i →
      ∃ e, i.edges.find? key = some e ∧ i.HasEnds (e.start, e.finish)) :
    ∃ keys, h = g.removeEdges keys ∧ keys.length = n ∧ keys.Nodup ∧
      ∀ key ∈ keys, ∃ e, g.edges.find? key = some e ∧ g.HasEnds (e.start, e.finish) := by
  induction hr with
  | nil g => exact ⟨[], (Graph.removeEdges_nil g).symm, rfl, .nil, fun key hk => (nomatch hk)⟩
  | @cons w ws g mid h keys n first rest ih =>
    obtain ⟨hw, hothers⟩ := List.forall_mem_cons.1 hstrike
    obtain ⟨hfound, hfinds⟩ := List.forall_mem_cons.1 hfinds
    obtain ⟨more, rfl, rfl, hnodup, hmore⟩ := ih hothers hfinds
    have hmid : mid = g.removeEdges keys := by rw [first.eq_strike, hw]
    subst hmid
    refine ⟨keys ++ more, Graph.removeEdges_removeEdges g keys more, List.length_append,
      List.nodup_append.2 ⟨first.ascending.imp Nat.ne_of_lt, hnodup, ?_⟩, fun key hk => ?_⟩
    · rintro key hk _ hk' rfl
      obtain ⟨e, he, -⟩ := hmore key hk'
      rw [Graph.find?_edges_removeEdges, if_pos hk] at he
      cases he
    · rcases List.mem_append.1 hk with hk | hk
      · exact hfound (first.mem_targets hk)
      · obtain ⟨e, he, hends⟩ := hmore key hk
        exact ⟨e, (Graph.within_removeEdges g keys).edge he, hends⟩

end Sweep

namespace NodeSchema

variable {s : NodeSchema} {params : Parameters} {tag : Json} {size n : Nat} {g h : Graph}
  {common : CommonParameters}

/-- An edge that a sweep of edges finds has both of its nodes. -/
theorem hasEnds_of_mem_targets {w : Sweep} {key : Nat}
    (hw : w ∈ s.edges.map (s.edgeSweep params tag) ++ s.ownerSweeps params tag)
    (hk : key ∈ w.targets g) :
    ∃ e, g.edges.find? key = some e ∧ g.HasEnds (e.start, e.finish) := by
  rcases edgeSweep_cases hw with ⟨r, -, rfl⟩ | ⟨o, -, rfl⟩
  · obtain ⟨e, he, -, hp⟩ := Graph.mem_staleEdges.1 hk
    simp only [Graph.isScopedEdge, Bool.and_eq_true] at hp
    exact ⟨e, he, Graph.hasEnds_of_hasPattern hp.1⟩
  · obtain ⟨e, he, -, hp⟩ := Graph.mem_staleEdges.1 hk
    exact ⟨e, he, Graph.hasEnds_of_isOwnership hp⟩

/-- The sweeps of a cleanup take the nodes that are lost, with every edge at one of them, and then
the edges that are lost without a node; they count both. -/
theorem lost_of_run (hr : Sweep.Run size (s.sweeps params tag) g n h) :
    n = (g.lostNodes h).length + (g.struckEdges h).length ∧
      h = (g.removeNodes (g.lostNodes h)).removeEdges (g.struckEdges h) := by
  obtain ⟨nodes, count, first, rest, rfl⟩ := exists_paged_of_run hr
  obtain ⟨edges, rfl, rfl, hnodup, hedges⟩ := rest.exists_removeEdges
    (fun w hw => strike_eq_removeEdges hw) (fun w hw _ _ hk => hasEnds_of_mem_targets hw hk)
  have hthere : ∀ key ∈ nodes, ∃ node, g.nodes.find? key = some node := by
    intro key hk
    obtain ⟨node, hnode, -⟩ := Graph.mem_staleNodes.1 (first.mem_targets hk)
    exact ⟨node, hnode⟩
  have hstruck : ∀ key, key ∈ edges ↔
      key ∈ g.struckEdges ((g.removeNodes nodes).removeEdges edges) := fun key =>
    (Graph.mem_struckEdges_of_removed hedges).symm
  have hperm := (List.perm_ext_iff_of_nodup hnodup
    ((Graph.pairwise_struckEdges g _).imp Nat.ne_of_lt)).2 hstruck
  rw [Graph.lostNodes_of_removed first.ascending hthere, ← hperm.length_eq,
    ← Graph.removeEdges_congr hstruck]
  exact ⟨rfl, rfl⟩

/-- A cleanup whose parameters are bound comes to an end. It counts the nodes that it takes away
and the edges that it takes away by themselves, not those that fall with a node; run once more at
any time, it counts nothing and leaves the graph as it is. -/
theorem cleanup_reaches_fixpoint (now : Int) (g : Graph)
    (hbound : ∀ st ∈ s.cleanupStatements, ∀ name ∈ st.parameters,
      common.toParameters.contains name = true) :
    ∃ n h, (Job.cleanup s common).run now g = (.ok n, h) ∧
      n = (g.lostNodes h).length + (g.struckEdges h).length ∧
      h = (g.removeNodes (g.lostNodes h)).removeEdges (g.struckEdges h) ∧
      ∀ later, (Job.cleanup s common).run later h = (.ok 0, h) := by
  have hcheck : (Job.cleanup s common).check = .ok () := by
    refine Job.check_eq_ok_iff.2 fun st hst => ?_
    obtain ⟨statement, hmem, rfl⟩ := List.mem_map.1 hst
    rw [common.bound_repeated, BoundStatement.check_eq_ok_iff]
    intro name hname
    rw [common.contains_bound]
    exact hbound statement hmem name hname
  obtain ⟨n, h, hr, hrun⟩ := run_cleanup now g hcheck
  obtain ⟨hcount, hleft⟩ := lost_of_run hr
  refine ⟨n, h, hrun, hcount, hleft, fun later => ?_⟩
  exact run_of_sweeps later hcheck (Sweep.run_of_targets_eq_nil hr.targets_eq_nil)

/-- The first run takes the old bucket, and the old edge from the other one to its tag; the second
run takes nothing. -/
theorem cleanup_reaches_fixpoint_of_sample :
    ∃ n h, (Job.cleanup Sample.bucket Sample.common).run 9 Sample.stored = (.ok n, h) ∧
      n = (Sample.stored.lostNodes h).length + (Sample.stored.struckEdges h).length ∧
      (Job.cleanup Sample.bucket Sample.common).run 10 h = (.ok 0, h) := by
  have hbound : ∀ st ∈ Sample.bucket.cleanupStatements, ∀ name ∈ st.parameters,
      Sample.common.toParameters.contains name = true := by
    intro st hst name hname
    have hcheck := Job.check_eq_ok_iff.1 Sample.check_cleanup _ (List.mem_map_of_mem hst)
    rw [Sample.common.bound_repeated, BoundStatement.check_eq_ok_iff] at hcheck
    rw [← Sample.common.contains_bound]
    exact hcheck name hname
  obtain ⟨n, h, hrun, hcount, -, hagain⟩ := cleanup_reaches_fixpoint 9 Sample.stored hbound
  exact ⟨n, h, hrun, hcount, hagain 10⟩

end NodeSchema

end GraphSync
