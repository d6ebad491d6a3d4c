import GraphSync.Proofs.Sample

/-! What becomes of a node or an edge while it is kept: identity and time of creation stay. -/
namespace GraphSync

/-- A later state of a node: it is the same one and was created at the same time, and it has lost
none of its labels. -/
structure Node.Becomes (n m : Node) : Prop where
  id : m.get? Names.id = n.get? Names.id
  seen : m.get? Names.firstSeen = n.get? Names.firstSeen
  labels : ∀ label, n.hasLabel label = true → m.hasLabel label = true

/-- A later state of an edge: it joins the same nodes and was created at the same time. -/
structure Edge.Becomes (e f : Edge) : Prop where
  edgeType : f.edgeType = e.edgeType
  start : f.start = e.start
  finish : f.finish = e.finish
  seen : f.properties.find? Names.firstSeen = e.properties.find? Names.firstSeen

theorem Node.Becomes.refl (n : Node) : n.Becomes n := ⟨rfl, rfl, fun _ hl => hl⟩

theorem Node.Becomes.trans {n m o : Node} (hn : n.Becomes m) (hm : m.Becomes o) : n.Becomes o :=
  ⟨hm.id.trans hn.id, hm.seen.trans hn.seen, fun label hl => hm.labels label (hn.labels label hl)⟩

theorem Edge.Becomes.refl (e : Edge) : e.Becomes e := ⟨rfl, rfl, rfl, rfl⟩

theorem Edge.Becomes.trans {e f x : Edge} (he : e.Becomes f) (hf : f.Becomes x) : e.Becomes x :=
  ⟨hf.edgeType.trans he.edgeType, hf.start.trans he.start, hf.finish.trans he.finish,
    hf.seen.trans he.seen⟩

theorem NodeUpsert.becomes_update (u : NodeUpsert) (params : Parameters) (record : Record)
    (n : Node) : n.Becomes (u.update params record n) := by
  refine ⟨NodeUpsert.get?_id_update, NodeUpsert.get?_firstSeen_update, fun label hl => ?_⟩
  rw [NodeUpsert.hasLabel_update, hl, Bool.true_or]

namespace SortedMap

variable {α : Type} {becomes : α → α → Prop} {made : α → Prop} {last later : Nat}
  {m n o : SortedMap Nat α}

/-- What a later map holds is a later state of what an earlier one holds at the same key, or was
made since, at a key that had not been given out. -/
def Carries (becomes : α → α → Prop) (made : α → Prop) (last : Nat) (m n : SortedMap Nat α) :
    Prop :=
  ∀ key b, n.find? key = some b →
    (∃ a, m.find? key = some a ∧ becomes a b) ∨ (last < key ∧ made b)

theorem Carries.of_kept (hrefl : ∀ a, becomes a a)
    (hkept : ∀ key b, n.find? key = some b → m.find? key = some b) :
    Carries becomes made last m n :=
  fun key b hb => .inl ⟨b, hkept key b hb, hrefl b⟩

theorem Carries.insert_new (hrefl : ∀ a, becomes a a) {b : α} (hb : made b) :
    Carries becomes made last m (m.insert (last + 1) b) := by
  intro key c hc
  rw [find?_insert] at hc
  split at hc
  · next hkey =>
    cases hc
    exact .inr ⟨by omega, hb⟩
  · exact .inl ⟨c, hc, hrefl c⟩

theorem Carries.insert_old (hrefl : ∀ a, becomes a a) {place : Nat} {a b : α}
    (ha : m.find? place = some a) (hab : becomes a b) :
    Carries becomes made last m (m.insert place b) := by
  intro key c hc
  rw [find?_insert] at hc
  split at hc
  · next hkey =>
    cases hc
    exact .inl ⟨a, hkey ▸ ha, hab⟩
  · exact .inl ⟨c, hc, hrefl c⟩

theorem Carries.trans (htrans : ∀ {a b c}, becomes a b → becomes b c → becomes a c)
    (hmade : ∀ {a b}, made a → becomes a b → made b) (hle : last ≤ later)
    (hm : Carries becomes made last m n) (hn : Carries becomes made later n o) :
    Carries becomes made last m o := by
  intro key c hc
  rcases hn key c hc with ⟨b, hb, hbc⟩ | ⟨hkey, hmake⟩
  · rcases hm key b hb with ⟨a, ha, hab⟩ | ⟨hkey, hmake⟩
    · exact .inl ⟨a, ha, htrans hab hbc⟩
    · exact .inr ⟨hkey, hmade hmake hbc⟩
  · exact .inr ⟨by omega, hmake⟩

end SortedMap

namespace Graph

/-- Between two graphs what is kept keeps its identity and its time of creation, and what is new
was created at the time at hand. -/
structure Continues (now : Int) (g h : Graph) : Prop where
  lastKey : g.lastKey ≤ h.lastKey
  nodes : SortedMap.Carries Node.Becomes (fun n => n.get? Names.firstSeen = some (.int now))
    g.lastKey g.nodes h.nodes
  edges : SortedMap.Carries Edge.Becomes
    (fun e => e.properties.find? Names.firstSeen = some (.int now)) g.lastKey g.edges h.edges

variable {g h i : Graph} {now : Int} {statements : List BoundStatement}

theorem Continues.refl (now : Int) (g : Graph) : Continues now g g :=
  ⟨Nat.le_refl _, .of_kept Node.Becomes.refl fun _ _ hn => hn,
    .of_kept Edge.Becomes.refl fun _ _ he => he⟩

theorem Continues.trans (hg : Continues now g h) (hh : Continues now h i) : Continues now g i :=
  ⟨Nat.le_trans hg.lastKey hh.lastKey,
    hg.nodes.trans Node.Becomes.trans (fun hmade hn => hn.seen.trans hmade) hg.lastKey hh.nodes,
    hg.edges.trans Edge.Becomes.trans (fun hmade he => he.seen.trans hmade) hg.lastKey hh.edges⟩

theorem Within.continues (hw : h.Within g) : Continues now g h :=
  ⟨Nat.le_of_eq hw.lastKey.symm, .of_kept Node.Becomes.refl fun _ _ hn => hw.node hn,
    .of_kept Edge.Becomes.refl fun _ _ he => hw.edge he⟩

theorem continues_of_step (hs : Step now g h) : Continues now g h := by
  cases hs with
  | index target =>
    exact ⟨Nat.le_refl _, (Continues.refl now g).nodes, (Continues.refl now g).edges⟩
  | addNode u params record hid hf =>
    refine ⟨Nat.le_succ _, .insert_new Node.Becomes.refl ?_, (Continues.refl now g).edges⟩
    rw [NodeUpsert.get?_firstSeen_update, NodeUpsert.get?_firstSeen_created]
  | @setNode key n u params record id hid hf hn =>
    have hbecomes := NodeUpsert.becomes_update u params record n
    exact ⟨Nat.le_refl _, .insert_old Node.Becomes.refl hn hbecomes, (Continues.refl now g).edges⟩
  | addEdge e hf hstart hfinish hseen =>
    exact ⟨Nat.le_succ _, (Continues.refl now g).nodes, .insert_new Edge.Becomes.refl hseen⟩
  | @setEdge key e r he hseen =>
    have hbecomes : e.Becomes { e with properties := r } := ⟨rfl, rfl, rfl, hseen⟩
    exact ⟨Nat.le_refl _, (Continues.refl now g).nodes,
      .insert_old Edge.Becomes.refl he hbecomes⟩
  | removeNodes keys => exact (within_removeNodes g keys).continues
  | removeEdges keys => exact (within_removeEdges g keys).continues

theorem continues_of_steps (hs : Steps now g h) : Continues now g h := by
  induction hs with
  | refl => exact .refl now g
  | tail _ hstep ih => exact ih.trans (continues_of_step hstep)

/-- In one transaction, whether it succeeds or fails, a node that is kept keeps its identity, its
labels and the time of its creation, as an edge keeps its type, its ends and the time of its
creation. What is created takes the time that the clock shows. -/
theorem keeps_history (now : Int) (statements : List BoundStatement) (hg : g.Reachable) :
    (∀ key n m, g.nodes.find? key = some n →
      (GraphM.transact now statements g).2.nodes.find? key = some m →
        m.get? Names.id = n.get? Names.id ∧
        m.get? Names.firstSeen = n.get? Names.firstSeen ∧
        ∀ label, n.hasLabel label = true → m.hasLabel label = true) ∧
    (∀ key e f, g.edges.find? key = some e →
      (GraphM.transact now statements g).2.edges.find? key = some f →
        f.edgeType = e.edgeType ∧ f.start = e.start ∧ f.finish = e.finish ∧
        f.properties.find? Names.firstSeen = e.properties.find? Names.firstSeen) ∧
    (∀ key m, g.nodes.find? key = none →
      (GraphM.transact now statements g).2.nodes.find? key = some m →
        m.get? Names.firstSeen = some (.int now)) ∧
    ∀ key f, g.edges.find? key = none →
      (GraphM.transact now statements g).2.edges.find? key = some f →
        f.properties.find? Names.firstSeen = some (.int now) := by
  have hcontinues : Continues now g (g.call (.execute now statements)) :=
    continues_of_steps steps_call_execute
  have hwf := hg.wellFormed
  refine ⟨fun key n m hn hm => ?_, fun key e f he hf => ?_, fun key m hnone hm => ?_,
    fun key f hnone hf => ?_⟩
  · rcases hcontinues.nodes key m hm with ⟨o, ho, hbecomes⟩ | ⟨hkey, -⟩
    · cases hn.symm.trans ho
      exact ⟨hbecomes.id, hbecomes.seen, hbecomes.labels⟩
    · have hle := hwf.node_le hn
      omega
  · rcases hcontinues.edges key f hf with ⟨o, ho, hbecomes⟩ | ⟨hkey, -⟩
    · cases he.symm.trans ho
      exact ⟨hbecomes.edgeType, hbecomes.start, hbecomes.finish, hbecomes.seen⟩
    · have hle := hwf.edge_le he
      omega
  · rcases hcontinues.nodes key m hm with ⟨o, ho, -⟩ | ⟨-, hseen⟩
    · cases hnone.symm.trans ho
    · exact hseen
  · rcases hcontinues.edges key f hf with ⟨o, ho, -⟩ | ⟨-, hseen⟩
    · cases hnone.symm.trans ho
    · exact hseen

end Graph

namespace Sample

/-- The load of one batch into the project. -/
def batch (records : List Record) : List BoundStatement :=
  Load.bindBatch bucket.loadStatements (Load.baseParameters params 2) records

theorem call_batch {now : Int} {g : Graph} {records : List Record}
    (hid : ∀ r ∈ records, (bucket.properties.id.resolve r
      ((Load.baseParameters params 2).withBatch records)).isSome = true) :
    g.call (.execute now (batch records)) =
      g.loadBatch now bucket ((Load.baseParameters params 2).withBatch records) records :=
  Graph.call_of_ok (Load.execute_bindBatch now g Load.contains_baseParameters hid check_load)

/-- What is there after the first load. -/
def loadedOnce : Graph :=
  Graph.empty.loadBatch 4 bucket ((Load.baseParameters params 2).withBatch oneBucket) oneBucket

theorem call_oneBucket : Graph.empty.call (.execute 4 (batch oneBucket)) = loadedOnce :=
  call_batch (by decide)

theorem reachable_loadedOnce : loadedOnce.Reachable := by
  rw [← call_oneBucket]
  exact Graph.Reachable.empty.call _

def loaded : Graph :=
  loadedOnce.loadBatch 9 bucket ((Load.baseParameters params 2).withBatch twoBuckets) twoBuckets

theorem call_twoBuckets : loadedOnce.call (.execute 9 (batch twoBuckets)) = loaded :=
  call_batch (by decide)

end Sample

namespace Graph

/-- A load keeps the bucket that an earlier one created, and gives its own time to a new one. -/
theorem keeps_history_of_sample : ∃ h n m k, Sample.loadedOnce.Reachable ∧
    (GraphM.transact 9 (Sample.batch Sample.twoBuckets) Sample.loadedOnce).2 = h ∧
    Sample.loadedOnce.nodes.find? 1 = some n ∧ h.nodes.find? 1 = some m ∧
    n.get? Names.firstSeen = some (.int 4) ∧ m.get? Names.firstSeen = some (.int 4) ∧
    m.get? Names.id = n.get? Names.id ∧ m.hasLabel "Bucket" = true ∧
    Sample.loadedOnce.nodes.find? 2 = none ∧ h.nodes.find? 2 = some k ∧
    k.get? Names.firstSeen = some (.int 9) := by
  have hg := Sample.reachable_loadedOnce
  have hrun : (GraphM.transact 9 (Sample.batch Sample.twoBuckets) Sample.loadedOnce).2 =
      Sample.loaded := call_execute.symm.trans Sample.call_twoBuckets
  obtain ⟨hkept, -, hnew, -⟩ := keeps_history 9 (Sample.batch Sample.twoBuckets) hg
  rw [hrun] at hkept hnew
  obtain ⟨hid, hseen, hlabels⟩ := hkept 1 _ _ rfl rfl
  have hfour := hseen.trans (by rfl)
  exact ⟨_, _, _, _, hg, hrun, rfl, rfl, rfl, hfour, hid, hlabels "Bucket" (by decide), rfl, rfl,
    hnew 2 _ rfl rfl⟩

end Graph

end GraphSync
