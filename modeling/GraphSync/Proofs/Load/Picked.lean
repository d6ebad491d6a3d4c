import Mathlib.Data.List.Induction
import GraphSync.Proofs.Sample

/-! What writing a batch as nodes leaves of a graph, told from the nodes that its records pick. -/
namespace GraphSync

/-- What is left of a node when the last of some records is written to it. -/
structure NodeUpsert.Overwrites (u : NodeUpsert) (params : Parameters) (last : Record)
    (n m : Node) : Prop where
  labels : ∀ label, m.hasLabel label = true ↔ n.hasLabel label = true ∨ label ∈ u.extraLabels
  declared : ∀ name ref, name ≠ Names.id → u.properties.mapping.ref? name = some ref →
    m.get? name = ref.resolve last params
  undeclared : ∀ name, u.properties.mapping.ref? name = none → m.get? name = n.get? name
  id : m.get? Names.id = n.get? Names.id
  firstSeen : m.get? Names.firstSeen = n.get? Names.firstSeen

namespace Graph

/-- The node that an identity picks: the one of the lowest key among those of the label with the
identity, or a new one if there is none. -/
inductive Picks (now : Int) (u : NodeUpsert) (g : Graph) (id : Json) : Nat → Node → Prop
  | found {key : Nat} {n : Node} (hn : g.nodes.find? key = some n)
      (hlabel : n.hasLabel u.label = true) (hid : n.identifiedBy id = true)
      (hleast : ∀ k m, k < key → g.nodes.find? k = some m → m.hasLabel u.label = true →
        m.identifiedBy id = false) : Picks now u g id key n
  | new (hnone : ∀ k m, g.nodes.find? k = some m → m.hasLabel u.label = true →
      m.identifiedBy id = false) : Picks now u g id (g.lastKey + 1) (u.created now id)

/-- Records are written in order, each to the node that it picks in what the ones before leave. -/
inductive Picking (now : Int) (u : NodeUpsert) (params : Parameters) (g : Graph) :
    List (Record × Nat) → Graph → Prop
  | nil : Picking now u params g [] g
  | snoc {picks : List (Record × Nat)} {mid h : Graph} {r : Record} {id : Json} {key : Nat}
      {n : Node} (hmid : Picking now u params g picks mid)
      (hid : u.properties.id.resolve r params = some id) (hpick : mid.Picks now u id key n)
      (hwrite : mid.writeNode now u params r = .ok h) :
      Picking now u params g (picks ++ [(r, key)]) h

/-- The records that picked a key, in order. -/
def pickers (picks : List (Record × Nat)) (key : Nat) : List Record :=
  (picks.filter fun p => p.2 = key).map (·.1)

/-- What a picked node was before: one of the graph's, or a new one for the first record. -/
inductive Origin (now : Int) (u : NodeUpsert) (params : Parameters) (g : Graph) (first : Record)
    (key : Nat) : Node → Prop
  | old {n : Node} (hn : g.nodes.find? key = some n) : Origin now u params g first key n
  | new {id : Json} (hnode : g.nodes.find? key = none) (hedge : g.edges.find? key = none)
      (hid : u.properties.id.resolve first params = some id) :
      Origin now u params g first key (u.created now id)

/-- What is left of a graph once records are written to the nodes that they picked. -/
structure Upserted (now : Int) (u : NodeUpsert) (params : Parameters) (g : Graph)
    (picks : List (Record × Nat)) (h : Graph) : Prop where
  picked : ∀ key first last, (pickers picks key).head? = some first →
    (pickers picks key).getLast? = some last → ∃ n m, g.Origin now u params first key n ∧
      h.nodes.find? key = some m ∧ u.Overwrites params last n m
  others : ∀ key, pickers picks key = [] → h.nodes.find? key = g.nodes.find? key
  edges : h.edges = g.edges
  indexes : h.indexes = g.indexes

end Graph

namespace NodeUpsert

variable {u : NodeUpsert} {params : Parameters} {last : Record} {n m : Node}

theorem overwrites_update : u.Overwrites params last n (u.update params last n) where
  labels label := by rw [hasLabel_update, Bool.or_eq_true, decide_eq_true_eq]
  declared name ref hne href := by rw [get?_update, if_neg hne, href]
  undeclared name href := by rw [get?_update, href, ite_self]
  id := get?_id_update
  firstSeen := get?_firstSeen_update

/-- What is said of an overwritten node leaves nothing open. -/
theorem overwrites_iff : u.Overwrites params last n m ↔ m = u.update params last n := by
  refine ⟨fun hm => ?_, fun hm => hm ▸ overwrites_update⟩
  have hu : u.Overwrites params last n (u.update params last n) := overwrites_update
  have hlabels : m.labels = (u.update params last n).labels :=
    SortedSet.contains_ext fun label =>
      Bool.eq_iff_iff.2 ((hm.labels label).trans (hu.labels label).symm)
  have hproperties : m.properties = (u.update params last n).properties := by
    refine SortedMap.find?_ext fun name => ?_
    by_cases hid : name = Names.id
    · exact hid ▸ hm.id.trans hu.id.symm
    · cases href : u.properties.mapping.ref? name with
      | none => exact (hm.undeclared name href).trans (hu.undeclared name href).symm
      | some ref =>
        exact (hm.declared name ref hid href).trans (hu.declared name ref hid href).symm
  cases m
  exact congr (congrArg Node.mk hlabels) hproperties

end NodeUpsert

namespace Graph

variable {now : Int} {u : NodeUpsert} {params : Parameters} {g h : Graph} {id : Json} {key : Nat}
  {n : Node} {r first : Record} {records : List Record} {picks : List (Record × Nat)}

theorem exists_picks (now : Int) (u : NodeUpsert) (g : Graph) (id : Json) :
    ∃ key n, g.Picks now u id key n := by
  cases hf : g.findNode u.label id with
  | none => exact ⟨_, _, .new (findNode_eq_none_iff.1 hf)⟩
  | some key =>
    obtain ⟨n, hn, hlabel, hid, hleast⟩ := findNode_eq_some_iff.1 hf
    exact ⟨key, n, .found hn hlabel hid hleast⟩

/-- A record is written to the node that it picks, and nothing else is touched. -/
theorem Picks.writeNode (hp : g.Picks now u id key n)
    (hid : u.properties.id.resolve r params = some id) :
    ∃ h, g.writeNode now u params r = .ok h ∧ h.edges = g.edges ∧ h.indexes = g.indexes ∧
      ∀ k, h.nodes.find? k =
        if k = key then some (u.update params r n) else g.nodes.find? k := by
  cases hp with
  | found hn hlabel hagrees hleast =>
    have hf := findNode_eq_some_iff.2 ⟨n, hn, hlabel, hagrees, hleast⟩
    exact ⟨_, writeNode_of_found hid hf hn, rfl, rfl, fun _ => find?_nodes_setNode⟩
  | new hnone =>
    have hf := findNode_eq_none_iff.2 hnone
    exact ⟨_, writeNode_of_absent hid hf, rfl, rfl, fun _ => find?_nodes_addNode⟩

/-- A node that is picked is there, or is new. -/
theorem Picks.origin (hg : g.WellFormed) (hp : g.Picks now u id key n)
    (hid : u.properties.id.resolve r params = some id) : g.Origin now u params r key n := by
  cases hp with
  | found hn => exact .old hn
  | new => exact .new hg.find?_node_next hg.find?_edge_next hid

theorem Picks.eq_of_find? {m : Node} (hg : g.WellFormed) (hp : g.Picks now u id key n)
    (hm : g.nodes.find? key = some m) : m = n := by
  cases hp with
  | found hn => exact Option.some.inj (hm.symm.trans hn)
  | new => exact absurd rfl (hg.node_ne_next hm)

theorem pickers_append (k : Nat) : pickers (picks ++ [(r, key)]) k =
    pickers picks k ++ if key = k then [r] else [] := by
  rw [pickers, List.filter_append, List.map_append, ← pickers]
  by_cases hk : key = k <;> simp [hk]

/-- One more record is written to a node that none of the others picked, or it overwrites one. -/
theorem Upserted.snoc {mid : Graph} (hmid : mid.WellFormed)
    (hu : g.Upserted now u params picks mid) (hpick : mid.Picks now u id key n)
    (hid : u.properties.id.resolve r params = some id)
    (hwrite : mid.writeNode now u params r = .ok h) :
    g.Upserted now u params (picks ++ [(r, key)]) h := by
  obtain ⟨_, hok, hedges, hindexes, hnodes⟩ := hpick.writeNode hid
  cases hok.symm.trans hwrite
  refine ⟨fun k first last hfirst hlast => ?_, fun k hnone => ?_, hedges.trans hu.edges,
    hindexes.trans hu.indexes⟩
  · rw [pickers_append] at hfirst hlast
    by_cases hk : key = k
    · subst hk
      rw [if_pos rfl] at hfirst hlast
      obtain rfl : last = r := by simpa using hlast.symm
      have hnow : h.nodes.find? key = some (u.update params last n) := by
        rw [hnodes, if_pos rfl]
      cases hearlier : pickers picks key with
      | nil =>
        obtain rfl : first = last := by simpa [hearlier] using hfirst.symm
        refine ⟨n, _, ?_, hnow, NodeUpsert.overwrites_update⟩
        cases hpick.origin hmid hid with
        | old hn => exact .old ((hu.others key hearlier).symm.trans hn)
        | new hnode hedge hid =>
          exact .new ((hu.others key hearlier).symm.trans hnode) (hu.edges ▸ hedge) hid
      | cons x rest =>
        have hbefore : (pickers picks key).getLast? = some ((x :: rest).getLast (by simp)) := by
          rw [hearlier, List.getLast?_eq_some_getLast]
        obtain rfl : x = first := by simpa [hearlier] using hfirst
        obtain ⟨o, m, horigin, hm, hover⟩ :=
          hu.picked key x _ (by rw [hearlier]; rfl) hbefore
        -- the node picked is the one that the earlier records left, and this one covers them
        obtain rfl := hpick.eq_of_find? hmid hm
        refine ⟨o, _, horigin, hnow, NodeUpsert.overwrites_iff.2 ?_⟩
        rw [NodeUpsert.overwrites_iff.1 hover, NodeUpsert.update_update]
    · rw [if_neg hk, List.append_nil] at hfirst hlast
      obtain ⟨o, m, horigin, hm, hover⟩ := hu.picked k first last hfirst hlast
      exact ⟨o, m, horigin, by rw [hnodes, if_neg (Ne.symm hk), hm], hover⟩
  · rw [pickers_append, List.append_eq_nil_iff] at hnone
    have hk : k ≠ key := by
      rintro rfl
      simp at hnone
    rw [hnodes, if_neg hk, hu.others k hnone.1]

/-- Whatever nodes the records pick, this is what they make of them. -/
theorem Picking.upserted (hg : g.WellFormed) (hp : g.Picking now u params picks h) :
    h.WellFormed ∧ g.Upserted now u params picks h := by
  induction hp with
  | nil =>
    refine ⟨hg, ⟨fun key first last hfirst => ?_, fun _ _ => rfl, rfl, rfl⟩⟩
    cases hfirst
  | snoc _ hid hpick hwrite ih =>
    obtain ⟨hmid, hu⟩ := ih
    exact ⟨hmid.step (step_of_writeNode hwrite), hu.snoc hmid hpick hid hwrite⟩

/-- Records with identities pick a node each, and are written to it. -/
theorem exists_picking (now : Int) (g : Graph)
    (hid : ∀ r ∈ records, (u.properties.id.resolve r params).isSome = true) :
    ∃ picks, picks.map (·.1) = records ∧
      g.Picking now u params picks (records.foldl (putNode now u params) g) := by
  induction records using List.reverseRecOn with
  | nil => exact ⟨[], rfl, .nil⟩
  | append_singleton records r ih =>
    obtain ⟨hbefore, hlast⟩ := List.forall_mem_append.1 hid
    obtain ⟨picks, hmap, hp⟩ := ih hbefore
    obtain ⟨id, hr⟩ := Option.isSome_iff_exists.1 (hlast r (List.mem_singleton_self r))
    obtain ⟨key, n, hpick⟩ :=
      exists_picks now u (records.foldl (putNode now u params) g) id
    refine ⟨picks ++ [(r, key)], by rw [List.map_append, hmap]; rfl, ?_⟩
    rw [List.foldl_append]
    exact .snoc hp hr hpick (writeNode_eq_putNode hr)

/-- The exact effect of writing a batch as nodes: in order, each record picks the oldest node of the
label with its identity, or a new one; the last record that picked a node overwrites it, and nothing
else changes. -/
theorem upsertNodes_exact (hg : g.Reachable) (now : Int)
    (hrecords : params.records = .ok records)
    (hid : ∀ r ∈ records, (u.properties.id.resolve r params).isSome = true) :
    ∃ picks h, g.apply now (.upsertNodes u) params = .ok (h, records.length) ∧
      picks.map (·.1) = records ∧ g.Picking now u params picks h ∧
      g.Upserted now u params picks h := by
  obtain ⟨picks, hmap, hp⟩ := exists_picking now g hid
  exact ⟨picks, _, upsertNodes_eq hrecords hid, hmap, hp, (hp.upserted hg.wellFormed).2⟩

/-- Two buckets in a batch where the first one is met again. -/
theorem upsertNodes_exact_of_sample : ∃ picks h,
    Sample.start.apply 9 (.upsertNodes Sample.bucket.upsert)
      (Sample.params.withBatch (Sample.twoBuckets ++ Sample.oneBucket)) = .ok (h, 3) ∧
    picks.map (·.1) = Sample.twoBuckets ++ Sample.oneBucket ∧
    Sample.start.Upserted 9 Sample.bucket.upsert
      (Sample.params.withBatch (Sample.twoBuckets ++ Sample.oneBucket)) picks h ∧
    h.edges = Sample.start.edges := by
  have hid : ∀ r ∈ Sample.twoBuckets ++ Sample.oneBucket,
      (Sample.bucket.upsert.properties.id.resolve r
        (Sample.params.withBatch (Sample.twoBuckets ++ Sample.oneBucket))).isSome = true := by
    decide
  obtain ⟨picks, h, happly, hmap, -, hu⟩ :=
    upsertNodes_exact Sample.reachable_start 9 Parameters.records_withBatch hid
  exact ⟨picks, h, happly, hmap, hu, hu.edges⟩

end Graph

end GraphSync
