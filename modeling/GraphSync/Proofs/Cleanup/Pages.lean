import GraphSync.Proofs.Cleanup.Effect

/-! The graphs that exist while a cleanup runs, page after page: what each of them still has. -/
namespace GraphSync

namespace Job

/-- The graphs between the pages of statements. An iterative statement is repeated after a page
that affected something, and left after one that affected nothing. -/
inductive Passes (now : Int) : List JobStatement → Graph → Graph → Prop
  | here {js g} : Passes now js g g
  | again {j js g mid h affected} (hiterative : j.iterative = true)
      (hpage : g.execute now [j.bound] = .ok (mid, affected)) (hmore : total affected ≠ 0)
      (rest : Passes now (j :: js) mid h) : Passes now (j :: js) g h
  | next {j js g mid h affected}
      (hpage : g.execute now [j.bound] = .ok (mid, affected))
      (hlast : j.iterative = true → total affected = 0)
      (rest : Passes now js mid h) : Passes now (j :: js) g h

/-- A graph exists at some time while a job runs, whether or not it comes to its end. -/
def Visits (now : Int) (j : Job) (g h : Graph) : Prop :=
  h = g ∨ (j.check = .ok () ∧ Passes now j.statements g h)

variable {now : Int} {j : JobStatement} {js : List JobStatement} {g h : Graph}

/-- Pages lead to the statements that follow, or are where the job ends. -/
theorem passes_runPages (hiterative : j.iterative = true) (counted : Nat) :
    match JobStatement.runPages now j.bound counted g with
    | (.ok _, mid) => ∀ h, Passes now js mid h → Passes now (j :: js) g h
    | (.error _, mid) => Passes now (j :: js) g mid := by
  induction hsize : g.size using Nat.strongRecOn generalizing g counted with
  | ind size ih =>
    rw [JobStatement.runPages]
    cases hpage : g.execute now [j.bound] with
    | error e => exact .here
    | ok done =>
      obtain ⟨mid, affected⟩ := done
      by_cases hnone : total affected = 0
      · simp only [hnone, if_true]
        exact fun h hrest => .next hpage (fun _ => hnone) hrest
      · by_cases hless : mid.size < g.size
        · have hpages := ih mid.size (hsize ▸ hless) (counted + total affected) rfl
          simp only [hnone, if_false, hless, if_true]
          split at hpages
          · exact fun h hrest => .again hiterative hpage hnone (hpages h hrest)
          · exact .again hiterative hpage hnone hpages
        · simp only [hnone, if_false, hless]
          exact .again hiterative hpage hnone .here

theorem passes_run (now : Int) (j : JobStatement) (js : List JobStatement) (g : Graph) :
    match j.run now g with
    | (.ok _, mid) => ∀ h, Passes now js mid h → Passes now (j :: js) g h
    | (.error _, mid) => Passes now (j :: js) g mid := by
  rw [JobStatement.run]
  by_cases hiterative : j.iterative = true
  · rw [if_pos hiterative]
    exact passes_runPages hiterative 0
  · rw [if_neg hiterative]
    cases hpage : g.execute now [j.bound] with
    | error e =>
      have hrun : GraphM.transact now [j.bound] g = (.error e, g) := by
        simp only [GraphM.transact, hpage]
      rw [GraphM.bind_of_error hrun]
      exact .here
    | ok done =>
      obtain ⟨mid, affected⟩ := done
      have hrun : GraphM.transact now [j.bound] g = (.ok affected, mid) := by
        simp only [GraphM.transact, hpage]
      rw [GraphM.bind_of_ok hrun]
      exact fun h hrest => .next hpage (fun h => absurd h hiterative) hrest

theorem passes_runAll : Passes now js g (runAll now js g).2 := by
  induction js generalizing g with
  | nil => exact .here
  | cons j js ih =>
    have hfirst := passes_run now j js g
    rw [runAll]
    cases hrun : j.run now g with
    | mk result mid =>
      rw [hrun] at hfirst
      cases result with
      | error e =>
        rw [GraphM.bind_of_error hrun]
        exact hfirst
      | ok n =>
        rw [GraphM.bind_of_ok hrun]
        have hrest := hfirst _ (ih (g := mid))
        cases hothers : runAll now js mid with
        | mk result last =>
          rw [hothers] at hrest
          cases result with
          | error e => rwa [GraphM.bind_of_error hothers]
          | ok m => rwa [GraphM.bind_of_ok hothers]

/-- What a job leaves is one of the graphs that it visits, a job that fails included. -/
theorem visits_run (now : Int) (j : Job) (g : Graph) : j.Visits now g (j.run now g).2 := by
  rw [run]
  cases hcheck : j.check with
  | error e =>
    rw [GraphM.bind_of_error (e := e) (h := g)]
    · exact .inl rfl
    · rfl
  | ok _ =>
    rw [GraphM.bind_of_ok (a := ()) (h := g)]
    · exact .inr ⟨hcheck, passes_runAll⟩
    · rfl

end Job

namespace Graph

/-- A node of a graph is no longer there. -/
def Lost (g h : Graph) (key : Nat) : Prop :=
  (∃ n, g.nodes.find? key = some n) ∧ h.nodes.find? key = none

variable {g h i : Graph} {key : Nat}

theorem Lost.of_within (hw : h.Within g) (hl : h.Lost i key) : g.Lost i key := by
  obtain ⟨⟨n, hn⟩, hnone⟩ := hl
  exact ⟨⟨n, hw.node hn⟩, hnone⟩

theorem Lost.trans_within (hl : g.Lost h key) (hw : i.Within h) : g.Lost i key := by
  refine ⟨hl.1, Option.eq_none_iff_forall_ne_some.2 fun n hn => ?_⟩
  exact nomatch (hw.node hn).symm.trans hl.2

end Graph

namespace NodeSchema

/-- Nothing is added and nothing changed; a node that is gone was one that the cleanup sweeps, and
an edge that is gone either lost one of its nodes or was stale and had the pattern of one of the
schema's edges, at a node in scope. -/
structure Spares (s : NodeSchema) (params : Parameters) (tag : Json) (g h : Graph) : Prop where
  within : h.Within g
  node : ∀ {key n}, g.nodes.find? key = some n → h.nodes.find? key = none →
    s.SweepsNode params tag g key
  edge : ∀ {key e}, g.edges.find? key = some e → h.edges.find? key = none →
    (g.Lost h e.start ∨ g.Lost h e.finish) ∨ e.properties.isStale tag = true ∧
      ∃ r ∈ s.allEdges, g.isScopedEdge params s.label s.scope r.pattern e = true

variable {s : NodeSchema} {params : Parameters} {tag : Json} {g h i : Graph} {keys : List Nat}
  {w : Sweep} {now : Int} {common : CommonParameters}

theorem Spares.refl (g : Graph) : s.Spares params tag g g :=
  ⟨.refl g, fun hn hnone => (nomatch hn.symm.trans hnone),
    fun he hnone => (nomatch he.symm.trans hnone)⟩

/-- What is judged on what is left would have been judged the same on the whole. -/
theorem Spares.trans (hg : s.Spares params tag g h) (hh : s.Spares params tag h i) :
    s.Spares params tag g i := by
  refine ⟨hh.within.trans hg.within, fun {key n} hn hnone => ?_, fun {key e} he hnone => ?_⟩
  · cases hmid : h.nodes.find? key with
    | none => exact hg.node hn hmid
    | some m =>
      rw [← mem_staleNodes_iff_sweepsNode]
      exact (Sweep.ofNodes params tag s.label s.scope).mono hg.within
        (mem_staleNodes_iff_sweepsNode.2 (hh.node hmid hnone))
  · cases hmid : h.edges.find? key with
    | none =>
      exact (hg.edge he hmid).imp
        (Or.imp (·.trans_within hh.within) (·.trans_within hh.within)) id
    | some x =>
      cases he.symm.trans (hg.within.edge hmid)
      refine (hh.edge hmid hnone).imp
        (Or.imp (.of_within hg.within) (.of_within hg.within)) ?_
      rintro ⟨ht, r, hr, hpattern⟩
      exact ⟨ht, r, hr, hg.within.isScopedEdge hpattern⟩

theorem spares_removeNodes
    (hkeys : ∀ key ∈ keys, key ∈ g.staleNodes params tag s.label s.scope) :
    s.Spares params tag g (g.removeNodes keys) := by
  have hlost : ∀ key ∈ keys, g.Lost (g.removeNodes keys) key := by
    intro key hk
    obtain ⟨n, hn, -⟩ := Graph.mem_staleNodes.1 (hkeys key hk)
    exact ⟨⟨n, hn⟩, by rw [Graph.find?_nodes_removeNodes, if_pos hk]⟩
  refine ⟨Graph.within_removeNodes g keys, fun {key n} hn hnone => ?_,
    fun {key e} he hnone => .inl ?_⟩
  · rw [Graph.find?_nodes_removeNodes, hn] at hnone
    refine mem_staleNodes_iff_sweepsNode.1 (hkeys key (Decidable.byContradiction fun hk => ?_))
    simp [hk] at hnone
  · rw [Graph.find?_edges_removeNodes, he, Option.filter_eq_none_iff] at hnone
    have hgone := hnone e rfl
    simp only [Bool.and_eq_true, Bool.not_eq_true', List.contains_eq_mem,
      decide_eq_false_iff_not, Decidable.not_and_iff_not_or_not, Decidable.not_not] at hgone
    exact hgone.imp (hlost _) (hlost _)

theorem spares_removeEdges {p : Edge → Bool} (hkeys : ∀ key ∈ keys, key ∈ g.staleEdges tag p)
    (hp : ∀ key e, g.edges.find? key = some e → p e = true →
      ∃ r ∈ s.allEdges, g.isScopedEdge params s.label s.scope r.pattern e = true) :
    s.Spares params tag g (g.removeEdges keys) := by
  refine ⟨Graph.within_removeEdges g keys, fun hn hnone => (nomatch hn.symm.trans hnone),
    fun {key e} he hnone => .inr ?_⟩
  rw [Graph.find?_edges_removeEdges, he] at hnone
  have hk : key ∈ keys := Decidable.byContradiction fun hk => by simp [hk] at hnone
  obtain ⟨x, hx, ht, hpx⟩ := Graph.mem_staleEdges.1 (hkeys key hk)
  cases he.symm.trans hx
  exact ⟨ht, hp key e he hpx⟩

/-- An edge from an owner in scope has the pattern of the schema's edge to its owner, and its node
is in scope by the edge itself. -/
theorem isScopedEdge_of_isOwnership {o : EdgeSchema} {key : Nat} {e : Edge}
    (ho : s.scopingEdge = some o) (he : g.edges.find? key = some e)
    (howner : g.isOwnership params s.label ⟨o.edgeType, o.target⟩ e = true) :
    o ∈ s.allEdges ∧ g.isScopedEdge params s.label s.scope o.pattern e = true := by
  have hs : s.owner = some o := owner_of_scopingEdge ho
  have hinward : o.pattern.direction = .inward := (s.valid.owner o hs).inward
  have hends : e.ends o.pattern.direction = (e.finish, e.start) := by
    rw [hinward]
    rfl
  simp only [Graph.isOwnership, Bool.and_eq_true, beq_iff_eq] at howner
  obtain ⟨⟨htype, hlabel⟩, hstart⟩ := howner
  obtain ⟨n, hn, hl, -⟩ := Graph.isOwner_iff.1 hstart
  have howned : g.inScope params s.scope e.finish = true := by
    rw [scope_eq_some_iff.2 ⟨o, ho, rfl⟩]
    exact Graph.isOwned_iff.2 ⟨key, e, he, htype, rfl, hstart⟩
  refine ⟨List.mem_append_right _ (Option.mem_toList.2 hs), ?_⟩
  simp only [Graph.isScopedEdge, Graph.hasPattern, hends, Bool.and_eq_true, beq_iff_eq]
  exact ⟨⟨⟨htype, hlabel⟩, Graph.hasLabel_iff.2 ⟨n, hn, hl⟩⟩, howned⟩

/-- A page of any sweep of a cleanup takes nothing but what its sweep finds. -/
theorem spares_strike (hw : w ∈ s.sweeps params tag) (hkeys : ∀ key ∈ keys, key ∈ w.targets g) :
    s.Spares params tag g (w.strike g keys) := by
  rw [sweeps_eq, List.mem_cons] at hw
  rcases hw with rfl | hw
  · exact spares_removeNodes hkeys
  · rcases edgeSweep_cases hw with ⟨e, he, rfl⟩ | ⟨o, ho, rfl⟩
    · exact spares_removeEdges hkeys fun _ _ _ hp => ⟨e, he, hp⟩
    · exact spares_removeEdges hkeys fun key x hx hp =>
        ⟨o, isScopedEdge_of_isOwnership ho hx hp⟩

theorem spares_page {st : Statement} {affected : List Nat} (hst : st ∈ s.cleanupStatements)
    (hpage : g.execute now [⟨st, common.bound⟩] = .ok (h, affected)) :
    s.Spares common.bound (.int common.tag) g h := by
  have hsome : (st.sweep? common.bound (.int common.tag)).isSome = true :=
    isSome_sweep?_of_mem_cleanupStatements hst
  obtain ⟨w, hw⟩ := Option.isSome_iff_exists.1 hsome
  obtain ⟨hcheck, -⟩ := Graph.execute_cons_eq_ok_iff.1 hpage
  rw [JobStatement.execute_sweep hw hcheck common.find?_sweepTag_bound common.pageSize_bound]
    at hpage
  cases hpage
  exact spares_strike (List.mem_filterMap.2 ⟨st, hst, hw⟩) fun key hk => List.mem_of_mem_take hk

theorem spares_passes {js : List JobStatement}
    (hjs : ∀ j ∈ js, ∃ st ∈ s.cleanupStatements, j.bound = ⟨st, common.bound⟩)
    (hp : Job.Passes now js g h) : s.Spares common.bound (.int common.tag) g h := by
  induction hp with
  | here => exact .refl _
  | again _ hpage _ _ ih =>
    obtain ⟨st, hst, hbound⟩ := hjs _ List.mem_cons_self
    exact (spares_page hst (hbound ▸ hpage)).trans (ih hjs)
  | next hpage _ _ ih =>
    obtain ⟨st, hst, hbound⟩ := hjs _ List.mem_cons_self
    exact (spares_page hst (hbound ▸ hpage)).trans
      (ih fun j hj => hjs j (List.mem_cons_of_mem _ hj))

theorem spares_of_visits (hv : (Job.cleanup s common).Visits now g h) :
    s.Spares common.bound (.int common.tag) g h := by
  rcases hv with rfl | ⟨-, hp⟩
  · exact .refl _
  · refine spares_passes (fun j hj => ?_) hp
    obtain ⟨st, hst, rfl⟩ := List.mem_map.1 hj
    exact ⟨st, hst, common.bound_repeated st⟩

/-- Whenever a cleanup is interrupted, nothing has been added and what is left is unchanged. A node
that is gone was a stale one of the schema's label, owned if cleanup is scoped; an edge that is
gone lost one of its nodes, or was stale and had the pattern of an edge of the schema, at a node
that was owned if cleanup is scoped. So fresh nodes stay, and those that no owner in scope has. -/
theorem every_page_spares_the_rest (hv : (Job.cleanup s common).Visits now g h) :
    h.Within g ∧
    (∀ key n, g.nodes.find? key = some n → h.nodes.find? key = none →
      n.hasLabel s.label = true ∧ n.properties.isStale (.int common.tag) = true ∧
        g.inScope common.bound s.scope key = true) ∧
    (∀ key e, g.edges.find? key = some e → h.edges.find? key = none →
      (g.Lost h e.start ∨ g.Lost h e.finish) ∨
        e.properties.isStale (.int common.tag) = true ∧ ∃ r ∈ s.allEdges,
          g.isScopedEdge common.bound s.label s.scope r.pattern e = true) ∧
    (∀ key n, g.nodes.find? key = some n →
      n.properties.isStale (.int common.tag) = false ∨
        g.inScope common.bound s.scope key = false → h.nodes.find? key = some n) := by
  have hspares := spares_of_visits hv
  have hnode : ∀ key n, g.nodes.find? key = some n → h.nodes.find? key = none →
      n.hasLabel s.label = true ∧ n.properties.isStale (.int common.tag) = true ∧
        g.inScope common.bound s.scope key = true := by
    intro key n hn hnone
    obtain ⟨m, hm, hswept⟩ := hspares.node hn hnone
    cases hn.symm.trans hm
    exact hswept
  refine ⟨hspares.within, hnode, fun key e => hspares.edge, fun key n hn hkept => ?_⟩
  cases hleft : h.nodes.find? key with
  | none =>
    obtain ⟨-, hstale, hscope⟩ := hnode key n hn hleft
    rcases hkept with hfresh | hout
    · exact absurd hstale (Bool.eq_false_iff.1 hfresh)
    · exact absurd hscope (Bool.eq_false_iff.1 hout)
  | some m => exact congrArg some (Option.some.inj (hn.symm.trans (hspares.within.node hleft))).symm

end NodeSchema

/-- After the first page of the bucket sweep the old bucket is gone and the new one is not. -/
theorem NodeSchema.every_page_spares_the_rest_of_sample :
    (Job.cleanup Sample.bucket Sample.common).Visits 9 Sample.stored
        (Sample.stored.removeNodes [2]) ∧
      Sample.stored.Lost (Sample.stored.removeNodes [2]) 2 ∧
      (Sample.stored.removeNodes [2]).Within Sample.stored ∧
      ∀ key n, Sample.stored.nodes.find? key = some n →
        n.properties.isStale (.int 2) = false ∨
          Sample.stored.inScope Sample.common.bound Sample.bucket.scope key = false →
        (Sample.stored.removeNodes [2]).nodes.find? key = some n := by
  have hcheck := Sample.check_cleanup
  have hfound : Sample.stored.staleNodes Sample.common.bound (.int 2) "Bucket"
      Sample.bucket.scope = [2] := by decide +kernel
  have hbound : BoundStatement.check
      ⟨.sweepNodes "Bucket" Sample.bucket.scope, Sample.common.bound⟩ = .ok () :=
    Job.check_eq_ok_iff.1 hcheck _ List.mem_cons_self
  have hpage : Sample.stored.execute 9
      [⟨.sweepNodes "Bucket" Sample.bucket.scope, Sample.common.bound⟩] =
        .ok (Sample.stored.removeNodes [2], [1]) := by
    rw [JobStatement.execute_sweep rfl hbound Sample.common.find?_sweepTag_bound
      Sample.common.pageSize_bound]
    exact congrArg (fun keys => Except.ok (Sample.stored.removeNodes (keys.take 1),
      [(keys.take 1).length])) hfound
  have hvisits : (Job.cleanup Sample.bucket Sample.common).Visits 9 Sample.stored
      (Sample.stored.removeNodes [2]) := .inr ⟨hcheck, .again rfl hpage (by decide) .here⟩
  obtain ⟨hwithin, -, -, hkept⟩ := every_page_spares_the_rest hvisits
  exact ⟨hvisits, ⟨⟨_, rfl⟩, rfl⟩, hwithin, hkept⟩

end GraphSync
