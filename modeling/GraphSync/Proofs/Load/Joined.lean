import GraphSync.Proofs.Graph.Between
import GraphSync.Proofs.Load.Chunking

/-! Edges written for records: which nodes are joined afterwards, what the edges carry, and how many
rows are counted. -/
namespace GraphSync

/-- A list stands for each of its elements that is not null, any other value for itself. -/
def Json.IsElement (x : Json) : Json → Prop
  | .arr items => x ∈ items ∧ x.isNull = false
  | v => x = v

/-- A property satisfies a reference if it compares with the value referred to, or with one of the
elements if the reference is to many. -/
inductive PropertyRef.SatisfiedBy (ref : PropertyRef) (record : Record) (params : Parameters) :
    Option Json → Prop
  | one {a v : Json} (hone : ref.isOneToMany = false) (hv : ref.resolve record params = some v)
      (ha : ref.matchMode.holds a v = true) : SatisfiedBy ref record params (some a)
  | many {a v x : Json} (hmany : ref.isOneToMany = true) (hv : ref.resolve record params = some v)
      (hx : x.IsElement v) (ha : ref.matchMode.holds a x = true) :
      SatisfiedBy ref record params (some a)

namespace Graph

/-- A node is a target for a record if it has the label and satisfies the whole matcher. -/
def IsTarget (g : Graph) (p : Endpoint) (params : Parameters) (record : Record) (key : Nat) :
    Prop :=
  ∃ n, g.nodes.find? key = some n ∧ n.hasLabel p.label = true ∧
    ∀ entry ∈ p.matcher.mapping, entry.2.SatisfiedBy record params (n.get? entry.1)

/-- The node that is loaded for a record: the oldest one of the label with the identity. -/
def IsLoaded (g : Graph) (u : EdgeUpsert) (params : Parameters) (record : Record) (key : Nat) :
    Prop :=
  ∃ id n, u.nodeId.resolve record params = some id ∧ g.nodes.find? key = some n ∧
    n.hasLabel u.nodeLabel = true ∧ n.identifiedBy id = true ∧
    ∀ k m, k < key → g.nodes.find? k = some m → m.hasLabel u.nodeLabel = true →
      m.identifiedBy id = false

/-- A record joins its loaded node and each of its targets, in the direction of the edge. -/
def Joins (g : Graph) (u : EdgeUpsert) (params : Parameters) (record : Record)
    (start finish : Nat) : Prop :=
  ∃ node target, g.IsLoaded u params record node ∧
    g.IsTarget u.edge.target params record target ∧
    u.edge.direction.orient node target = (start, finish)

/-- How many rows a record has: every value that is matched by itself counts with every node of the
label that it accepts, if there is a loaded node. -/
def rowCount (g : Graph) (u : EdgeUpsert) (params : Parameters) (record : Record) : Nat :=
  match (u.nodeId.resolve record params).bind (g.findNode u.nodeLabel) with
  | some _ => total ((u.edge.target.matcher.candidates record params).map fun c =>
      (g.labelled u.edge.target.label).countP fun b =>
        u.edge.target.matcher.accepts record params c b.2)
  | none => 0

/-- What is left of a graph when records join nodes by edges of a schema. -/
structure Joined (now : Int) (e : EdgeSchema) (params : Parameters) (records : List Record)
    (joins : Record → Nat → Nat → Prop) (g h : Graph) : Prop where
  nodes : h.nodes = g.nodes
  indexes : h.indexes = g.indexes
  /-- Edges from before keep their place, type and ends. -/
  kept : ∀ {key x}, g.edges.find? key = some x →
    ∃ y, h.edges.find? key = some y ∧ y.joint = x.joint
  /-- Edges that no record is about are as before. -/
  others : ∀ {key x}, (x.edgeType = e.edgeType → ∀ r ∈ records, ¬ joins r x.start x.finish) →
    (h.edges.find? key = some x ↔ g.edges.find? key = some x)
  /-- Two nodes are joined by a type if they were, or if a record joins them by it. -/
  joined : ∀ {p : Joint}, (∃ key x, h.edges.find? key = some x ∧ x.joint = p) ↔
    (∃ key x, g.edges.find? key = some x ∧ x.joint = p) ∨
      p.1 = e.edgeType ∧ ∃ r ∈ records, joins r p.2.1 p.2.2
  /-- No two edges of a type join the same nodes. -/
  single : ∀ {k l x y}, h.edges.find? k = some x → h.edges.find? l = some y →
    x.joint = y.joint → k = l
  /-- The last record that joins two nodes tells what is declared. The rest is as before, in a new
  edge nothing but the time. -/
  written : ∀ {before r after start finish}, records = before ++ r :: after →
    joins r start finish → (∀ s ∈ after, ¬ joins s start finish) →
      ∃ key x, h.edges.find? key = some x ∧ x.joint = (e.edgeType, start, finish) ∧
        (∀ name, x.properties.find? name = match e.properties.mapping.ref? name with
          | some ref => ref.resolve r params
          | none => ((g.between (e.edgeType, start, finish)).getD (createdEdge now)).find? name) ∧
        x.properties.find? Names.firstSeen =
          ((g.between (e.edgeType, start, finish)).getD (createdEdge now)).find? Names.firstSeen

end Graph

theorem Json.mem_elements_iff {x : Json} {v : Option Json} :
    x ∈ Json.elements v ↔ ∃ w, v = some w ∧ x.IsElement w := by
  cases v with
  | none => simp [Json.elements]
  | some v => cases v <;> simp [Json.elements, Json.IsElement]

namespace PropertyRef

variable {ref : PropertyRef} {record : Record} {params : Parameters} {actual : Option Json}

theorem accepts_eq_true_iff {mode : MatchMode} {expected : Option Json} :
    mode.accepts actual expected = true ↔
      ∃ a v, actual = some a ∧ expected = some v ∧ mode.holds a v = true := by
  cases actual <;> cases expected <;> simp [MatchMode.accepts]

theorem satisfiedBy_of_one (hone : ref.isOneToMany = false) :
    ref.SatisfiedBy record params actual ↔
      ref.matchMode.accepts actual (ref.resolve record params) = true := by
  rw [accepts_eq_true_iff]
  constructor
  · intro h
    cases h with
    | one _ hv ha => exact ⟨_, _, rfl, hv, ha⟩
    | many hmany => exact absurd hmany (Bool.eq_false_iff.1 hone)
  · rintro ⟨a, v, rfl, hv, ha⟩
    exact .one hone hv ha

theorem satisfiedBy_of_many (hmany : ref.isOneToMany = true) :
    ref.SatisfiedBy record params actual ↔
      ∃ x ∈ Json.elements (ref.resolve record params),
        ref.matchMode.accepts actual (some x) = true := by
  constructor
  · intro h
    cases h with
    | one hone => exact absurd hmany (Bool.eq_false_iff.1 hone)
    | many _ hv hx ha =>
      exact ⟨_, Json.mem_elements_iff.2 ⟨_, hv, hx⟩, accepts_eq_true_iff.2 ⟨_, _, rfl, rfl, ha⟩⟩
  · rintro ⟨x, hx, haccepts⟩
    obtain ⟨v, hv, helement⟩ := Json.mem_elements_iff.1 hx
    obtain ⟨a, _, rfl, hsame, ha⟩ := accepts_eq_true_iff.1 haccepts
    cases hsame
    exact .many hmany hv helement ha

end PropertyRef

namespace Graph

variable {g h : Graph} {now : Int} {params : Parameters} {records : List Record} {record : Record}
  {p : Endpoint} {key start finish : Nat} {u : EdgeUpsert} {e : EdgeSchema}

/-- The nodes that are matched are the targets, whichever element each of them is matched by. -/
theorem mem_matching_iff_isTarget :
    key ∈ g.matching record params p ↔ g.IsTarget p params record key := by
  rw [mem_matching]
  constructor
  · rintro ⟨c, hc, n, hn, hl, haccepts⟩
    refine ⟨n, hn, hl, fun entry hentry => ?_⟩
    have hone := List.all_eq_true.1 haccepts entry hentry
    by_cases hmany : entry.2.isOneToMany = true
    · rw [Matcher.candidates, Matcher.eq_oneToMany hentry hmany] at hc
      obtain ⟨x, hx, rfl⟩ := List.mem_map.1 hc
      rw [if_pos hmany] at hone
      exact (PropertyRef.satisfiedBy_of_many hmany).2 ⟨x, hx, hone⟩
    · rw [if_neg hmany] at hone
      exact (PropertyRef.satisfiedBy_of_one (Bool.eq_false_iff.2 hmany)).2 hone
  · rintro ⟨n, hn, hl, hall⟩
    cases hmatcher : p.matcher.oneToMany? with
    | none =>
      have hc : none ∈ p.matcher.candidates record params := by
        rw [Matcher.candidates, hmatcher]
        exact List.mem_singleton_self _
      refine ⟨none, hc, n, hn, hl, List.all_eq_true.2 fun entry hentry => ?_⟩
      have hone : ¬ entry.2.isOneToMany = true := List.find?_eq_none.1 hmatcher entry hentry
      rw [if_neg hone]
      exact (PropertyRef.satisfiedBy_of_one (Bool.eq_false_iff.2 hone)).1 (hall entry hentry)
    | some f =>
      have hf : f ∈ p.matcher.mapping := List.mem_of_find?_eq_some hmatcher
      have hfmany : f.2.isOneToMany = true :=
        List.find?_some (p := fun entry : String × PropertyRef => entry.2.isOneToMany) hmatcher
      obtain ⟨x, hx, hholds⟩ := (PropertyRef.satisfiedBy_of_many hfmany).1 (hall f hf)
      have hc : some x ∈ p.matcher.candidates record params := by
        rw [Matcher.candidates, hmatcher]
        exact List.mem_map_of_mem hx
      refine ⟨some x, hc, n, hn, hl, List.all_eq_true.2 fun entry hentry => ?_⟩
      by_cases hmany : entry.2.isOneToMany = true
      · -- there is one such property at most
        obtain rfl : f = entry :=
          Option.some.inj (hmatcher.symm.trans (Matcher.eq_oneToMany hentry hmany))
        rwa [if_pos hmany]
      · rw [if_neg hmany]
        exact (PropertyRef.satisfiedBy_of_one (Bool.eq_false_iff.2 hmany)).1 (hall entry hentry)

theorem isLoaded_iff : g.IsLoaded u params record key ↔
    ∃ id, u.nodeId.resolve record params = some id ∧ g.findNode u.nodeLabel id = some key := by
  simp only [findNode_eq_some_iff]
  constructor
  · rintro ⟨id, n, hid, hn⟩
    exact ⟨id, hid, n, hn⟩
  · rintro ⟨id, hid, n, hn⟩
    exact ⟨id, n, hid, hn⟩

/-- The rows of a record are its loaded node with each of its targets. -/
theorem joins_iff : g.Joins u params record start finish ↔
    ∃ row ∈ g.edgeRows u params record,
      u.edge.direction.orient row.1 row.2 = (start, finish) := by
  simp only [Joins, isLoaded_iff, ← mem_matching_iff_isTarget, mem_edgeRows]
  constructor
  · rintro ⟨node, target, ⟨id, hid, hf⟩, ht, ho⟩
    exact ⟨(node, target), ⟨id, hid, hf, ht⟩, ho⟩
  · rintro ⟨row, ⟨id, hid, hf, ht⟩, ho⟩
    exact ⟨row.1, row.2, ⟨id, hid, hf⟩, ht, ho⟩

theorem length_edgeRows :
    (g.edgeRows u params record).length = g.rowCount u params record := by
  rw [edgeRows, rowCount]
  cases (u.nodeId.resolve record params).bind (g.findNode u.nodeLabel) with
  | none => rfl
  | some node =>
    simp only [List.length_map, matching, List.length_flatMap, List.countP_eq_length_filter]

/-! Rows of any kind, and what they leave. -/

variable {rows : Record → List (Nat × Nat)} {joins : Record → Nat → Nat → Prop} {w : EdgeWrite}

theorem recordRows_append {xs ys : List Record} :
    recordRows e rows (xs ++ ys) = recordRows e rows xs ++ recordRows e rows ys :=
  List.flatMap_append

theorem writeEdges_eq_putRows : g.writeEdges now e params (records.map fun r => (r, rows r)) =
    g.putRows now params (recordRows e rows records) := by
  simp only [writeEdges, putRows, recordRows, List.foldl_flatMap, List.foldl_map]
  rfl

theorem upsertRows_eq_putRows (hrecords : params.records = .ok records) :
    g.upsertRows now e params rows = .ok (g.putRows now params (recordRows e rows records),
      total (records.map fun r => (rows r).length)) := by
  simp only [upsertRows, hrecords, ← writeEdges_eq_putRows, bind, Except.bind, List.map_map]
  rfl

theorem indexes_putRows {ws : List EdgeWrite} : (g.putRows now params ws).indexes = g.indexes :=
  eq_foldl (fun _ _ => indexes_touchEdge) ws g

theorem hasEnds_of_mem_recordRows (hends : ∀ r ∈ records, ∀ row ∈ rows r, g.HasEnds row) :
    ∀ w ∈ recordRows e rows records, g.HasEnds w.row := by
  intro w hw
  obtain ⟨-, hr, hrow⟩ := mem_recordRows.1 hw
  exact hends w.record hr w.row hrow

/-- Among records those of the last one that has a row for a joint tell what its edge becomes. -/
theorem between_recordRows {before after : List Record} {r : Record} {q : Joint} (now : Int)
    (params : Parameters) (hg : g.WellFormed)
    (hws : ∀ w ∈ recordRows e rows (before ++ r :: after), g.HasEnds w.row)
    (hown : ∃ w ∈ recordRows e rows [r], w.joint = q)
    (hlater : ∀ w ∈ recordRows e rows after, w.joint ≠ q) :
    (g.putRows now params (recordRows e rows (before ++ r :: after))).between q =
      some (e.properties.mapping.assignAll r params ((g.between q).getD (createdEdge now))) := by
  have hsplit : recordRows e rows (before ++ r :: after) = recordRows e rows before ++
      (recordRows e rows [r] ++ recordRows e rows after) := by
    rw [← recordRows_append, ← recordRows_append]
    rfl
  have hschema : ∀ w ∈ recordRows e rows (before ++ r :: after), w.schema = e := fun w hw =>
    (mem_recordRows.1 hw).1
  rw [hsplit] at hws hschema ⊢
  exact between_putRows_of_last now params hg hws hschema
    (fun w hw => List.mem_singleton.1 (mem_recordRows.1 hw).2.1) hown hlater

section Rows

variable (hrows : ∀ r ∈ records, ∀ start finish, joins r start finish ↔
    ∃ row ∈ rows r, e.direction.orient row.1 row.2 = (start, finish))

include hrows

theorem exists_recordRow_iff {p : Joint} :
    (∃ w ∈ recordRows e rows records, w.joint = p) ↔
      p.1 = e.edgeType ∧ ∃ r ∈ records, joins r p.2.1 p.2.2 := by
  constructor
  · rintro ⟨w, hw, rfl⟩
    obtain ⟨rfl, hr, hrow⟩ := mem_recordRows.1 hw
    exact ⟨rfl, w.record, hr, (hrows _ hr _ _).2 ⟨w.row, hrow, rfl⟩⟩
  · rintro ⟨htype, r, hr, hjoins⟩
    obtain ⟨row, hrow, ho⟩ := (hrows r hr _ _).1 hjoins
    refine ⟨⟨e, r, row⟩, mem_recordRows.2 ⟨rfl, hr, hrow⟩, ?_⟩
    exact Prod.ext htype.symm ho

/-- Rows leave what is told of the records that have them. -/
theorem joined_putRows (now : Int) (params : Parameters) (hg : g.WellFormed)
    (hends : ∀ r ∈ records, ∀ row ∈ rows r, g.HasEnds row) :
    Joined now e params records joins g (g.putRows now params (recordRows e rows records)) := by
  have hws : ∀ w ∈ recordRows e rows records, g.HasEnds w.row := hasEnds_of_mem_recordRows hends
  have hput : (g.putRows now params (recordRows e rows records)).WellFormed := hg.putRows hws
  constructor
  case nodes => exact nodes_putRows
  case indexes => exact indexes_putRows
  case kept => exact fun hx => exists_of_putRows hg hws now params hx
  case others =>
    intro key x hnone
    refine find?_putRows_of_joint_ne hg hws fun w hw hj => ?_
    obtain ⟨htype, r, hr, hjoins⟩ := (exists_recordRow_iff hrows).1 ⟨w, hw, hj.symm⟩
    exact hnone htype r hr hjoins
  case joined =>
    intro p
    rw [← isSome_between_iff, ← isSome_between_iff, isSome_between_putRows hg hws now params,
      exists_recordRow_iff hrows]
  case single => exact fun hx hy hj => hput.eq_of_joint hx hy hj
  case written =>
    intro before r after start finish hrecords hjoins hafter
    have hfirst : ∀ s ∈ [r], s ∈ records := by
      intro s hs
      rw [List.mem_singleton.1 hs, hrecords]
      exact List.mem_append_right _ List.mem_cons_self
    have hrest : ∀ s ∈ after, s ∈ records := by
      intro s hs
      rw [hrecords]
      exact List.mem_append_right _ (List.mem_cons_of_mem _ hs)
    have hown : ∃ w ∈ recordRows e rows [r], w.joint = (e.edgeType, start, finish) :=
      (exists_recordRow_iff fun s hs => hrows s (hfirst s hs)).2
        ⟨rfl, r, List.mem_singleton_self r, hjoins⟩
    have hlater : ∀ w ∈ recordRows e rows after, w.joint ≠ (e.edgeType, start, finish) := by
      intro w hw hj
      obtain ⟨-, s, hs, hjoins⟩ :=
        (exists_recordRow_iff fun s hs => hrows s (hrest s hs)).1 ⟨w, hw, hj⟩
      exact hafter s hs hjoins
    have hlast := between_recordRows now params hg (hrecords ▸ hws) hown hlater
    rw [← hrecords, between_eq_some_iff hput] at hlast
    obtain ⟨key, hkey⟩ := hlast
    have hfind : ∀ name, (e.properties.mapping.assignAll r params
        ((g.between (e.edgeType, start, finish)).getD (createdEdge now))).find? name =
          match e.properties.mapping.ref? name with
          | some ref => ref.resolve r params
          | none => ((g.between (e.edgeType, start, finish)).getD (createdEdge now)).find? name :=
      fun _ => Mapping.find?_assignAll e.properties.wellFormed.distinct
    refine ⟨key, _, hkey, rfl, hfind, ?_⟩
    rw [hfind, Mapping.ref?_eq_none_iff.2 e.properties.unreserved]

end Rows

/-- The exact effect of writing edges of loaded nodes: which edges there are, what they carry and
how many rows are counted. Records without a loaded node or a target leave nothing. -/
theorem upsertEdges_exact (hg : g.WellFormed) (now : Int) (u : EdgeUpsert)
    (hrecords : params.records = .ok records) :
    ∃ h, g.apply now (.upsertEdges u) params =
        .ok (h, total (records.map (g.rowCount u params))) ∧
      Joined now u.edge params records (g.Joins u params) g h := by
  have hcount : (records.map fun r => (g.edgeRows u params r).length) =
      records.map (g.rowCount u params) := List.map_congr_left fun r _ => length_edgeRows
  have happly : g.apply now (.upsertEdges u) params =
      .ok (g.putRows now params (recordRows u.edge (g.edgeRows u params) records),
        total (records.map fun r => (g.edgeRows u params r).length)) :=
    upsertRows_eq_putRows hrecords
  have hjoins : ∀ r ∈ records, ∀ start finish, g.Joins u params r start finish ↔
      ∃ row ∈ g.edgeRows u params r, u.edge.direction.orient row.1 row.2 = (start, finish) :=
    fun r _ start finish => joins_iff
  have hends : ∀ r ∈ records, ∀ row ∈ g.edgeRows u params r, g.HasEnds row :=
    fun r _ row hrow => hasEnds_of_mem_edgeRows hrow
  rw [hcount] at happly
  exact ⟨_, happly, joined_putRows hjoins now params hg hends⟩

/-- A bucket gets its tag once, however often it is reported; a record without identity is passed
over. -/
theorem upsertEdges_exact_of_sample : ∃ h,
    Sample.apart.apply 5 (.upsertEdges (Sample.bucket.edgeUpsert Sample.tagged))
      (Sample.params.withBatch [Sample.grant, .empty, Sample.grant]) = .ok (h, 2) ∧
    (∃ key x, h.edges.find? key = some x ∧ x.joint = ("TAGGED", 1, 2)) ∧
    h.nodes = Sample.apart.nodes := by
  have hrecords : (Sample.params.withBatch [Sample.grant, .empty, Sample.grant]).records =
      .ok [Sample.grant, .empty, Sample.grant] := Parameters.records_withBatch
  obtain ⟨h, happly, hjoined⟩ := upsertEdges_exact Sample.reachable_apart.wellFormed 5
    (Sample.bucket.edgeUpsert Sample.tagged) hrecords
  have hrow : Sample.apart.Joins (Sample.bucket.edgeUpsert Sample.tagged)
      (Sample.params.withBatch [Sample.grant, .empty, Sample.grant]) Sample.grant 1 2 :=
    joins_iff.2 ⟨(1, 2), by decide, rfl⟩
  have hcount : total ([Sample.grant, .empty, Sample.grant].map
      (Sample.apart.rowCount (Sample.bucket.edgeUpsert Sample.tagged)
        (Sample.params.withBatch [Sample.grant, .empty, Sample.grant]))) = 2 := by decide
  rw [hcount] at happly
  exact ⟨h, happly, hjoined.joined.2 (.inr ⟨rfl, _, List.mem_cons_self, hrow⟩), hjoined.nodes⟩

end Graph

end GraphSync
