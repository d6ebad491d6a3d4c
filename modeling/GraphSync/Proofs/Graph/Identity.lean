import GraphSync.Proofs.Graph.History
import GraphSync.Proofs.Value

/-! Among the nodes of a label that upserts alone give, every identity stands for one node. -/
namespace GraphSync

/-- The identities of two nodes agree. -/
def Node.SharesIdentity (n m : Node) : Prop :=
  ∃ i j, n.get? Names.id = some i ∧ m.get? Names.id = some j ∧ i.agrees j = true

theorem Node.SharesIdentity.symm {n m : Node} (h : n.SharesIdentity m) : m.SharesIdentity n := by
  obtain ⟨i, j, hi, hj, hagree⟩ := h
  exact ⟨j, i, hj, hi, (Json.agrees_comm j i).trans hagree⟩

theorem Node.SharesIdentity.congr {n m x y : Node} (h : n.SharesIdentity m)
    (hx : n.get? Names.id = x.get? Names.id) (hy : m.get? Names.id = y.get? Names.id) :
    x.SharesIdentity y := by
  obtain ⟨i, j, hi, hj, hagree⟩ := h
  exact ⟨i, j, hx ▸ hi, hy ▸ hj, hagree⟩

theorem Node.SharesIdentity.identifiedBy {n m : Node} {id : Json} (h : n.SharesIdentity m)
    (hm : m.get? Names.id = some id) : n.identifiedBy id = true := by
  obtain ⟨i, j, hi, hj, hagree⟩ := h
  cases hm.symm.trans hj
  rw [Node.identifiedBy, hi]
  exact hagree

namespace Graph

/-- The nodes of a label have identities and times of creation, and no two of them share an
identity. -/
structure Identified (label : String) (g : Graph) : Prop where
  id : ∀ {key n}, g.nodes.find? key = some n → n.hasLabel label = true →
    ∃ v, n.get? Names.id = some v ∧ v.isNull = false
  seen : ∀ {key n}, g.nodes.find? key = some n → n.hasLabel label = true →
    ∃ time, n.get? Names.firstSeen = some (.int time)
  unique : ∀ {key other n m}, g.nodes.find? key = some n → g.nodes.find? other = some m →
    n.hasLabel label = true → m.hasLabel label = true → n.SharesIdentity m → key = other

variable {label : String} {g h : Graph} {now : Int} {u : NodeUpsert} {params : Parameters}
  {record : Record} {records : List Record} {id : Json} {key : Nat} {n : Node} {s : Statement}

/-- Nothing is lost when nodes of the label come from nodes of the label at the same keys. -/
theorem Identified.of_nodes (hg : g.Identified label)
    (hold : ∀ {k m}, h.nodes.find? k = some m → m.hasLabel label = true →
      ∃ n, g.nodes.find? k = some n ∧ n.hasLabel label = true ∧
        m.get? Names.id = n.get? Names.id ∧ m.get? Names.firstSeen = n.get? Names.firstSeen) :
    h.Identified label := by
  refine ⟨fun hm hl => ?_, fun hm hl => ?_, fun hm hx hl hlx hshared => ?_⟩
  · obtain ⟨n, hn, hln, hid, -⟩ := hold hm hl
    rw [hid]
    exact hg.id hn hln
  · obtain ⟨n, hn, hln, -, hseen⟩ := hold hm hl
    rw [hseen]
    exact hg.seen hn hln
  · obtain ⟨n, hn, hln, hid, -⟩ := hold hm hl
    obtain ⟨y, hy, hly, hidy, -⟩ := hold hx hlx
    exact hg.unique hn hy hln hly (hshared.congr hid hidy)

/-- A node whose identity no node of its label has can be added. -/
theorem Identified.addNode (hg : g.Identified label) (hid : n.get? Names.id = some id)
    (hnull : id.isNull = false) (hseen : ∃ time, n.get? Names.firstSeen = some (.int time))
    (hnew : n.hasLabel label = true → g.findNode label id = none) :
    (g.addNode n).Identified label := by
  have hcases : ∀ {k m}, (g.addNode n).nodes.find? k = some m →
      (k = g.lastKey + 1 ∧ m = n) ∨ g.nodes.find? k = some m := by
    intro k m hm
    rw [find?_nodes_addNode] at hm
    split at hm
    · exact .inl ⟨‹_›, (Option.some.inj hm).symm⟩
    · exact .inr hm
  have hapart : ∀ {k m}, g.nodes.find? k = some m → m.hasLabel label = true →
      n.hasLabel label = true → ¬ m.SharesIdentity n := by
    intro k m hm hlm hln hshared
    have hnone := findNode_eq_none_iff.1 (hnew hln) k m hm hlm
    exact Bool.false_ne_true (hnone.symm.trans (hshared.identifiedBy hid))
  refine ⟨fun hm hl => ?_, fun hm hl => ?_, fun hm hx hl hlx hshared => ?_⟩
  · rcases hcases hm with ⟨-, rfl⟩ | hm
    · exact ⟨id, hid, hnull⟩
    · exact hg.id hm hl
  · rcases hcases hm with ⟨-, rfl⟩ | hm
    · exact hseen
    · exact hg.seen hm hl
  · rcases hcases hm with ⟨hk, hmn⟩ | hm
    · rcases hcases hx with ⟨hl', -⟩ | hx
      · exact hk.trans hl'.symm
      · exact absurd (hmn ▸ hshared).symm (hapart hx hlx (hmn ▸ hl))
    · rcases hcases hx with ⟨-, hxn⟩ | hx
      · exact absurd (hxn ▸ hshared) (hapart hm hl (hxn ▸ hlx))
      · exact hg.unique hm hx hl hlx hshared

/-- An upsert that does not give the label to nodes of other labels creates no second node with an
identity. -/
theorem Identified.writeNode (hg : g.Identified label) (hextra : label ∉ u.extraLabels)
    (hw : writeNode now u params g record = .ok h) : h.Identified label := by
  have hkeep : ∀ x : Node, (u.update params record x).hasLabel label = x.hasLabel label := by
    intro x
    rw [NodeUpsert.hasLabel_update, decide_eq_false hextra, Bool.or_false]
  cases hid : u.properties.id.resolve record params with
  | none => simp [Graph.writeNode, hid] at hw
  | some id =>
    cases hf : g.findNode u.label id with
    | none =>
      rw [writeNode_of_absent hid hf] at hw
      cases hw
      have hidentity : (u.update params record (u.created now id)).get? Names.id = some id := by
        rw [NodeUpsert.get?_id_update, NodeUpsert.get?_id_created]
      have htime : (u.update params record (u.created now id)).get? Names.firstSeen =
          some (.int now) := by
        rw [NodeUpsert.get?_firstSeen_update, NodeUpsert.get?_firstSeen_created]
      refine hg.addNode hidentity (Json.present_eq_some_iff.1 hid).2 ⟨now, htime⟩ fun hl => ?_
      rw [hkeep, NodeUpsert.hasLabel_created, decide_eq_true_eq] at hl
      rwa [hl]
    | some key =>
      obtain ⟨n, hn, -⟩ := findNode_eq_some_iff.1 hf
      rw [writeNode_of_found hid hf hn] at hw
      cases hw
      refine hg.of_nodes fun {k m} hm hl => ?_
      rw [find?_nodes_setNode] at hm
      split at hm
      · next hk =>
        cases hm
        exact ⟨n, hk ▸ hn, hkeep n ▸ hl, NodeUpsert.get?_id_update,
          NodeUpsert.get?_firstSeen_update⟩
      · exact ⟨m, hm, hl, rfl, rfl⟩

theorem Identified.foldlM_writeNode (hg : g.Identified label) (hextra : label ∉ u.extraLabels)
    (hw : records.foldlM (Graph.writeNode now u params) g = .ok h) : h.Identified label := by
  induction records generalizing g with
  | nil =>
    cases hw
    exact hg
  | cons r rest ih =>
    rw [List.foldlM_cons] at hw
    obtain ⟨mid, hfirst, hrest⟩ := bind_eq_ok_iff.1 hw
    exact ih (hg.writeNode hextra hfirst) hrest

/-- Only upserts of nodes make nodes or change them. -/
theorem find?_of_apply {affected : Nat} (hs : ∀ u, s ≠ .upsertNodes u)
    (hw : g.apply now s params = .ok (h, affected)) (hn : h.nodes.find? key = some n) :
    g.nodes.find? key = some n := by
  have hrows : ∀ {e : EdgeSchema} {rows : Record → List (Nat × Nat)},
      g.upsertRows now e params rows = .ok (h, affected) → h.nodes = g.nodes := by
    intro e rows hw
    obtain ⟨records, -, hw⟩ := bind_eq_ok_iff.1 hw
    cases hw
    exact nodes_writeEdges
  have hedges : ∀ {find : Json → List Nat},
      g.sweepPage params find removeEdges = .ok (h, affected) → h.nodes = g.nodes := by
    intro find hw
    obtain ⟨keys, rfl⟩ := eq_remove_of_sweepPage hw
    rfl
  cases s with
  | createIndex target =>
    cases hw
    exact hn
  | upsertNodes u => exact absurd rfl (hs u)
  | upsertEdges u => rwa [hrows hw] at hn
  | upsertLinks u => rwa [hrows hw] at hn
  | sweepNodes label scope =>
    obtain ⟨keys, rfl⟩ := eq_remove_of_sweepPage hw
    exact (within_removeNodes g keys).node hn
  | sweepOwnership label scope => rwa [hedges hw] at hn
  | sweepEdges label scope edge => rwa [hedges hw] at hn
  | sweepLinks sweep => rwa [hedges hw] at hn
  | linkByProperty l => rwa [nodes_of_linkByProperty hw] at hn
  | raw text => cases hw

theorem Identified.apply {affected : Nat} (hg : g.Identified label)
    (hextra : ∀ u, s = .upsertNodes u → label ∉ u.extraLabels)
    (hw : g.apply now s params = .ok (h, affected)) : h.Identified label := by
  by_cases hs : ∃ u, s = .upsertNodes u
  · obtain ⟨u, rfl⟩ := hs
    obtain ⟨records, -, hw⟩ := bind_eq_ok_iff.1 hw
    obtain ⟨written, hwritten, hw⟩ := bind_eq_ok_iff.1 hw
    cases hw
    exact hg.foldlM_writeNode (hextra u rfl) hwritten
  · have hs : ∀ u, s ≠ .upsertNodes u := fun u hu => hs ⟨u, hu⟩
    exact hg.of_nodes fun {k m} hm hl => ⟨m, find?_of_apply hs hw hm, hl, rfl, rfl⟩

/-- No statement that takes effect gives the label to nodes of other labels. -/
def GivesNoLabel (label : String) (statements : List BoundStatement) : Prop :=
  ∀ b ∈ statements, ∀ u, b.statement = .upsertNodes u → label ∉ u.extraLabels

theorem Identified.execute {statements : List BoundStatement} {affected : List Nat}
    (hg : g.Identified label) (hextra : GivesNoLabel label statements)
    (hrun : g.execute now statements = .ok (h, affected)) : h.Identified label := by
  induction statements generalizing g affected with
  | nil =>
    cases hrun
    exact hg
  | cons b rest ih =>
    obtain ⟨hfirst, hothers⟩ := List.forall_mem_cons.1 hextra
    obtain ⟨-, mid, count, others, ha, hr, -⟩ := execute_cons_eq_ok_iff.1 hrun
    exact ih (hg.apply hfirst ha) hothers hr

theorem Identified.seed {labels : List String} {r : Record} (hg : g.Identified label)
    (hlabel : label ∉ labels) : (g.addNode ⟨.ofKeys labels, r⟩).Identified label := by
  refine hg.of_nodes fun {k m} hm hl => ?_
  rw [find?_nodes_addNode] at hm
  split at hm
  · cases hm
    rw [Node.hasLabel_ofKeys, decide_eq_true_eq] at hl
    exact absurd hl hlabel
  · exact ⟨m, hm, hl, rfl, rfl⟩

theorem Identified.empty (label : String) : Graph.empty.Identified label := by
  refine ⟨fun hn => ?_, fun hn => ?_, fun hn => ?_⟩
  all_goals cases hn

theorem Identified.foldl_call {calls : List Call} (hg : g.Identified label)
    (hseed : ∀ labels r, .seed labels r ∈ calls → label ∉ labels)
    (hextra : GivesNoLabel label (committed g calls)) :
    (calls.foldl call g).Identified label := by
  induction calls generalizing g with
  | nil => exact hg
  | cons c rest ih =>
    obtain ⟨hfirst, hothers⟩ := List.forall_mem_append.1 hextra
    have hrest : ∀ labels r, .seed labels r ∈ rest → label ∉ labels := by
      intro labels r hr
      exact hseed labels r (List.mem_cons_of_mem c hr)
    refine ih ?_ hrest hothers
    cases c with
    | seed labels r => exact hg.seed (hseed labels r List.mem_cons_self)
    | execute now statements =>
      obtain ⟨affected, hrun⟩ := execute_effective g now statements
      exact hg.execute hfirst hrun

/-- Whatever else a store is asked to do, a label that it gets from upserts of its own alone tells
nodes apart by their identities, and each of them has one and a time of creation. -/
theorem unique_identity (label : String) (calls : List Call)
    (hseed : ∀ labels r, .seed labels r ∈ calls → label ∉ labels)
    (hextra : GivesNoLabel label (committed .empty calls)) :
    (∀ key n, (afterCalls calls).nodes.find? key = some n → n.hasLabel label = true →
      (∃ id, n.get? Names.id = some id ∧ id.isNull = false) ∧
        ∃ time, n.get? Names.firstSeen = some (.int time)) ∧
    ∀ key other n m i j, (afterCalls calls).nodes.find? key = some n →
      (afterCalls calls).nodes.find? other = some m →
      n.hasLabel label = true → m.hasLabel label = true →
      n.get? Names.id = some i → m.get? Names.id = some j → i.agrees j = true → key = other := by
  have hall : (afterCalls calls).Identified label :=
    (Identified.empty label).foldl_call hseed hextra
  constructor
  · intro key n hn hl
    exact ⟨hall.id hn hl, hall.seen hn hl⟩
  · intro key other n m i j hn hm hln hlm hi hj hagree
    exact hall.unique hn hm hln hlm ⟨i, j, hi, hj, hagree⟩

end Graph

namespace Sample

/-- Loads into a new store, of one bucket and then of it and another. -/
def calls : List Call := [.execute 4 (batch oneBucket), .execute 9 (batch twoBuckets)]

theorem mem_calls {c : Call} (hc : c ∈ calls) :
    ∃ now records, c = .execute now (batch records) := by
  rcases List.mem_cons.1 hc with rfl | hc
  · exact ⟨_, _, rfl⟩
  · obtain rfl := List.mem_singleton.1 hc
    exact ⟨_, _, rfl⟩

theorem upsert_of_mem_batch {records : List Record} {b : BoundStatement} {u : NodeUpsert}
    (hb : b ∈ batch records) (hu : b.statement = .upsertNodes u) : u = bucket.upsert := by
  rw [batch, Load.bindBatch_eq, NodeSchema.loadStatements_eq] at hb
  simp only [List.mem_map, List.mem_cons] at hb
  obtain ⟨st, rfl | ⟨e, -, rfl⟩, rfl⟩ := hb
  · cases hu
    rfl
  · cases hu

theorem afterCalls_calls : Graph.afterCalls calls = loaded := by
  rw [Graph.afterCalls, calls, List.foldl_cons, call_oneBucket, List.foldl_cons, call_twoBuckets,
    List.foldl_nil]

end Sample

namespace Graph

/-- A bucket that is loaded twice is there once, beside the one that the second load creates. -/
theorem unique_identity_of_sample : ∃ n m,
    (afterCalls Sample.calls).nodes.find? 1 = some n ∧ n.hasLabel "Bucket" = true ∧
      n.get? Names.id = some (.str "old") ∧ n.get? Names.firstSeen = some (.int 4) ∧
      (afterCalls Sample.calls).nodes.find? 2 = some m ∧ m.hasLabel "Bucket" = true ∧
      ∀ key other, (afterCalls Sample.calls).nodes.find? key = some other →
        other.hasLabel "Bucket" = true → other.get? Names.id = some (.str "old") → key = 1 := by
  have hseed : ∀ labels r, .seed labels r ∈ Sample.calls → "Bucket" ∉ labels := by
    intro labels r hr
    obtain ⟨now, records, hc⟩ := Sample.mem_calls hr
    cases hc
  have hextra : GivesNoLabel "Bucket" (committed .empty Sample.calls) := by
    intro b hb u hu
    obtain ⟨now, statements, hc, hmem⟩ := mem_committed hb
    obtain ⟨_, records, hc⟩ := Sample.mem_calls hc
    cases hc
    rw [Sample.upsert_of_mem_batch hmem hu]
    exact List.not_mem_nil
  have hunique := unique_identity "Bucket" Sample.calls hseed hextra
  rw [Sample.afterCalls_calls] at hunique ⊢
  refine ⟨_, _, rfl, by decide, rfl, rfl, rfl, by decide, fun key other hother hl hid => ?_⟩
  exact hunique.2 key 1 other _ _ _ hother rfl hl (by decide) hid rfl (by decide)

end Graph

end GraphSync
