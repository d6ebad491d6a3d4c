import GraphSync.Proofs.Load.Joined

/-! Graphs with the same nodes under other keys: what is matched in them is the same, and they are
alike if the same edges lie between the nodes. -/
namespace GraphSync.Graph

/-- The nodes of one graph are those of the other under permuted keys. -/
def Permutes (π : Equiv.Perm Nat) (g h : Graph) : Prop :=
  ∀ key, h.nodes.find? (π key) = g.nodes.find? key

/-- The edges of one graph are those of the other between permuted nodes. -/
def PermutesEdges (π : Equiv.Perm Nat) (g h : Graph) : Prop :=
  ∀ edgeType start finish, h.between (edgeType, π start, π finish) =
    g.between (edgeType, start, finish)

variable {π : Equiv.Perm Nat} {g h : Graph} {u : EdgeUpsert} {p : Endpoint} {params : Parameters}
  {record : Record} {key : Nat}

theorem nodup_labelled (g : Graph) (label : String) : (g.labelled label).Nodup := by
  have hkeys : (g.nodes.entries.map (·.1)).Nodup := g.nodes.nodup_keys
  exact (List.Nodup.of_map _ hkeys).filter _

theorem Permutes.perm_labelled (hπ : Permutes π g h) (label : String) :
    (h.labelled label).Perm ((g.labelled label).map fun b => (π b.1, b.2)) := by
  have hinjective : Function.Injective fun b : Nat × Node => (π b.1, b.2) := by
    intro a b hab
    simp only [Prod.mk.injEq, π.injective.eq_iff] at hab
    exact Prod.ext hab.1 hab.2
  refine (List.perm_ext_iff_of_nodup (nodup_labelled h label)
    ((nodup_labelled g label).map hinjective)).2 fun b => ?_
  obtain ⟨key, n⟩ := b
  simp only [List.mem_map, Prod.exists, Prod.mk.injEq, mem_labelled]
  constructor
  · rintro ⟨hn, hl⟩
    refine ⟨π.symm key, n, ⟨?_, hl⟩, π.apply_symm_apply key, rfl⟩
    rw [← hπ, π.apply_symm_apply, hn]
  · rintro ⟨k, m, ⟨hm, hl⟩, rfl, rfl⟩
    exact ⟨(hπ k).trans hm, hl⟩

theorem Permutes.mem_matching (hπ : Permutes π g h) :
    π key ∈ h.matching record params p ↔ key ∈ g.matching record params p := by
  rw [Graph.mem_matching, Graph.mem_matching, hπ key]

/-- Records with the same loaded node have as many rows. -/
theorem Permutes.rowCount (hπ : Permutes π g h)
    (hloaded : (u.nodeId.resolve record params).bind (h.findNode u.nodeLabel) =
      ((u.nodeId.resolve record params).bind (g.findNode u.nodeLabel)).map π) :
    h.rowCount u params record = g.rowCount u params record := by
  have hcount : ∀ c, ((h.labelled u.edge.target.label).countP fun b =>
        u.edge.target.matcher.accepts record params c b.2) =
      (g.labelled u.edge.target.label).countP fun b =>
        u.edge.target.matcher.accepts record params c b.2 := by
    intro c
    rw [(hπ.perm_labelled _).countP_eq, List.countP_map]
    rfl
  rw [Graph.rowCount, Graph.rowCount, hloaded]
  cases (u.nodeId.resolve record params).bind (g.findNode u.nodeLabel) with
  | none => rfl
  | some node => simp only [Option.map_some, hcount]

/-- A permutation that moves no node moves no edge. -/
theorem permutesEdges_of_fixes (hg : g.WellFormed)
    (hfix : ∀ {key n}, g.nodes.find? key = some n → π key = key) : PermutesEdges π g g := by
  intro edgeType start finish
  refine Option.ext fun r => ?_
  rw [between_eq_some_iff hg, between_eq_some_iff hg]
  constructor
  · rintro ⟨key, he⟩
    obtain ⟨_, hs⟩ := hg.start he
    obtain ⟨_, hf⟩ := hg.finish he
    have hstart : π start = start := π.injective (hfix hs)
    have hfinish : π finish = finish := π.injective (hfix hf)
    rw [hstart, hfinish] at he
    exact ⟨key, he⟩
  · rintro ⟨key, he⟩
    obtain ⟨_, hs⟩ := hg.start he
    obtain ⟨_, hf⟩ := hg.finish he
    have hstart : π start = start := hfix hs
    have hfinish : π finish = finish := hfix hf
    rw [hstart, hfinish]
    exact ⟨key, he⟩

/-- Keys of the same node, or of edges of a type between the same nodes. -/
inductive Carries (π : Equiv.Perm Nat) (g h : Graph) (key other : Nat) : Prop
  | node {n : Node} (hn : g.nodes.find? key = some n) (ho : other = π key)
  | edge {e f : Edge} (he : g.edges.find? key = some e) (hf : h.edges.find? other = some f)
      (hj : f.joint = (e.edgeType, π e.start, π e.finish))

theorem Carries.biUnique (hg : g.WellFormed) (hh : h.WellFormed) (hπ : Permutes π g h) :
    Relator.BiUnique (Carries π g h) := by
  constructor
  · intro a b other ha hb
    cases ha with
    | node hn ho =>
      cases hb with
      | node _ ho' => exact π.injective (ho.symm.trans ho')
      | edge _ hf => exact absurd hf (hh.apart (ho ▸ (hπ a).trans hn))
    | edge he hf hj =>
      cases hb with
      | node hn ho => exact absurd hf (hh.apart (ho ▸ (hπ b).trans hn))
      | edge he' hf' hj' =>
        cases hf.symm.trans hf'
        have hsame := hj.symm.trans hj'
        simp only [Prod.mk.injEq, π.injective.eq_iff] at hsame
        exact hg.eq_of_joint he he' (Prod.ext hsame.1 (Prod.ext hsame.2.1 hsame.2.2))
  · intro key a b ha hb
    cases ha with
    | node hn ho =>
      cases hb with
      | node _ ho' => exact ho.trans ho'.symm
      | edge he => exact absurd he (hg.apart hn)
    | edge he hf hj =>
      cases hb with
      | node hn => exact absurd he (hg.apart hn)
      | edge he' hf' hj' =>
        cases he.symm.trans he'
        exact hh.eq_of_joint hf hf' (hj.trans hj'.symm)

/-- The same nodes with the same edges between them are the same graph but for the keys. -/
theorem alike_of_permutes (hg : g.WellFormed) (hh : h.WellFormed) (hπ : Permutes π g h)
    (hedges : PermutesEdges π g h) (hi : h.indexes = g.indexes) : g.Alike h := by
  have hbound : ∀ k l, Carries π g h k l → k ≤ g.lastKey := by
    intro k l hc
    cases hc with
    | node hn _ => exact hg.node_le hn
    | edge he _ => exact hg.edge_le he
  refine alike_of_biUnique (Carries.biUnique hg hh hπ) hbound (fun k n hn => ?_)
    (fun l n hn => ?_) (fun k e he => ?_) (fun l f hf => ?_) hi
  · exact ⟨π k, .node hn rfl, (hπ k).trans hn⟩
  · have hn' : g.nodes.find? (π.symm l) = some n := by
      rw [← hπ, π.apply_symm_apply, hn]
    exact ⟨π.symm l, n, .node hn' (π.apply_symm_apply l).symm, hn'⟩
  · have hsome := (hedges e.edgeType e.start e.finish).trans (between_of_find? hg he)
    obtain ⟨l, hl⟩ := (between_eq_some_iff hh).1 hsome
    obtain ⟨_, hs⟩ := hg.start he
    obtain ⟨_, ht⟩ := hg.finish he
    exact ⟨l, π e.start, π e.finish, .edge he hl rfl, .node hs rfl, .node ht rfl, hl⟩
  · have hjoint : (f.edgeType, π (π.symm f.start), π (π.symm f.finish)) = f.joint := by
      rw [π.apply_symm_apply, π.apply_symm_apply]
      rfl
    have hsome := (hedges f.edgeType (π.symm f.start) (π.symm f.finish)).symm.trans
      (hjoint ▸ between_of_find? hh hf)
    obtain ⟨k, hk⟩ := (between_eq_some_iff hg).1 hsome
    exact ⟨k, _, .edge hk hf hjoint.symm, hk⟩

end GraphSync.Graph
