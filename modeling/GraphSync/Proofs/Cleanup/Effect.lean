import GraphSync.Proofs.Sample

/-! What a cleanup takes away, read off the graph that it starts with. -/
namespace GraphSync

/-- The owners that scope the schema's cleanup are none of its own nodes. -/
def NodeSchema.OwnersApart (s : NodeSchema) (g : Graph) : Prop :=
  ∀ o, s.scopingEdge = some o → g.LabelsApart s.label o.target.label

namespace NodeSchema

instance (s : NodeSchema) (g : Graph) : Decidable (s.OwnersApart g) :=
  inferInstanceAs (Decidable (∀ o ∈ s.scopingEdge, g.LabelsApart s.label o.target.label))

variable {s : NodeSchema} {scope : Scope}

theorem owner_of_scopingEdge {o : EdgeSchema} (ho : s.scopingEdge = some o) : s.owner = some o := by
  rw [scopingEdge] at ho
  split at ho
  · exact ho
  · cases ho

theorem scope_eq_some_iff :
    s.scope = some scope ↔ ∃ o, s.scopingEdge = some o ∧ ⟨o.edgeType, o.target⟩ = scope :=
  Option.map_eq_some_iff

theorem OwnersApart.not_isOwner {g : Graph} {params : Parameters} {key : Nat}
    (ha : s.OwnersApart g) (hs : s.scope = some scope) (hl : g.hasLabel key s.label = true) :
    ¬ g.isOwner params scope key = true := by
  intro ho
  obtain ⟨o, hso, rfl⟩ := scope_eq_some_iff.1 hs
  obtain ⟨n, hn, hown, -⟩ := Graph.isOwner_iff.1 ho
  obtain ⟨n', hn', hl⟩ := Graph.hasLabel_iff.1 hl
  cases hn.symm.trans hn'
  simp [ha o hso key n hn hl] at hown

end NodeSchema

namespace Graph

variable {g : Graph} {params : Parameters} {scope : Scope} {keys : List Nat} {key : Nat}

theorem isOwner_removeNodes (ho : g.isOwner params scope key = true) (hk : key ∉ keys) :
    (g.removeNodes keys).isOwner params scope key = true := by
  obtain ⟨n, hn, ho⟩ := isOwner_iff.1 ho
  exact isOwner_iff.2 ⟨n, by rw [find?_nodes_removeNodes, if_neg hk, hn], ho⟩

/-- A node stays owned while neither it nor one of its owners goes. -/
theorem isOwned_removeNodes (ho : g.isOwned params scope key = true) (hk : key ∉ keys)
    (hkeys : ∀ k ∈ keys, ¬ g.isOwner params scope k = true) :
    (g.removeNodes keys).isOwned params scope key = true := by
  obtain ⟨k, e, he, ht, rfl, howner⟩ := isOwned_iff.1 ho
  have hs : e.start ∉ keys := fun hs => hkeys _ hs howner
  refine isOwned_iff.2 ⟨k, e, ?_, ht, rfl, isOwner_removeNodes howner hs⟩
  rw [find?_edges_removeNodes, he]
  simp [hk, hs]

/-- Ownership is not touched by a removal of edges of other types. -/
theorem isOwned_removeEdges (ho : g.isOwned params scope key = true)
    (hkeys : ∀ k ∈ keys, ∀ e, g.edges.find? k = some e → e.edgeType ≠ scope.edgeType) :
    (g.removeEdges keys).isOwned params scope key = true := by
  obtain ⟨k, e, he, ht, hf, ho⟩ := isOwned_iff.1 ho
  have hk : k ∉ keys := fun hk => hkeys k hk e he ht
  refine isOwned_iff.2 ⟨k, e, ?_, ht, hf, ho⟩
  rw [find?_edges_removeEdges, if_neg hk, he]

end Graph

namespace Sweep

variable {s : NodeSchema} {params : Parameters} {tag : Json} {g : Graph}

/-- Stale nodes are found whatever other stale nodes go, as their owners stay. -/
theorem steady_ofNodes (ha : s.OwnersApart g) :
    (ofNodes params tag s.label s.scope).Steady g := by
  intro key hk
  obtain ⟨n, hn, hl, ht, hi⟩ := Graph.mem_staleNodes.1 hk
  refine Graph.mem_staleNodes.2 ⟨n, ?_, hl, ht, ?_⟩
  · simp [ofNodes, Graph.find?_nodes_removeNodes, hn]
  · cases hs : s.scope with
    | none => rfl
    | some scope =>
      rw [hs] at hi
      refine Graph.isOwned_removeNodes hi (by simp) fun k hk => ?_
      obtain ⟨m, hm, hlm, -⟩ := Graph.mem_staleNodes.1 (List.mem_filter.1 hk).1
      exact ha.not_isOwner hs (Graph.hasLabel_iff.2 ⟨m, hm, hlm⟩)

theorem steady_ofEdges {p : Graph → Edge → Bool}
    {hp : ∀ {g h e}, h.Within g → p h e = true → p g e = true}
    (hkeep : ∀ key e, g.edges.find? key = some e → p g e = true →
      p (g.removeEdges ((g.staleEdges tag (p g)).filter (· < key))) e = true) :
    (ofEdges tag p hp).Steady g := by
  intro key hk
  obtain ⟨e, he, ht, hc⟩ := Graph.mem_staleEdges.1 hk
  refine Graph.mem_staleEdges.2 ⟨e, ?_, ht, hkeep key e he hc⟩
  simp [ofEdges, Graph.find?_edges_removeEdges, he]

/-- A sweep of a pattern that is not the type of ownership leaves its own scope alone. -/
theorem steady_isScopedEdge {p : EdgePattern}
    (hp : ∀ scope, s.scope = some scope → p.edgeType ≠ scope.edgeType) :
    (ofEdges tag (fun g => g.isScopedEdge params s.label s.scope p)
      Graph.Within.isScopedEdge).Steady g := by
  refine steady_ofEdges fun key e he hc => ?_
  simp only [Graph.isScopedEdge, Bool.and_eq_true] at hc ⊢
  refine ⟨hc.1, ?_⟩
  cases hs : s.scope with
  | none => rfl
  | some scope =>
    rw [hs] at hc
    refine Graph.isOwned_removeEdges hc.2 fun k hk x hx => ?_
    obtain ⟨y, hy, -, hpat⟩ := Graph.mem_staleEdges.1 (List.mem_filter.1 hk).1
    cases hx.symm.trans hy
    simp only [Graph.isScopedEdge, Graph.hasPattern, Bool.and_eq_true, beq_iff_eq] at hpat
    rw [hpat.1.1.1]
    exact hp scope hs

theorem steady_isOwnership {scope : Scope} :
    (ofEdges tag (fun g => g.isOwnership params s.label scope)
      Graph.Within.isOwnership).Steady g :=
  steady_ofEdges fun _ _ _ hc => hc

/-- Without a scope nothing is asked of other edges. -/
theorem steady_unscoped {label : String} {p : EdgePattern} :
    (ofEdges tag (fun g => g.isScopedEdge params label none p)
      Graph.Within.isScopedEdge).Steady g :=
  steady_ofEdges fun _ _ _ hc => hc

end Sweep

namespace Graph

variable {g : Graph} {params : Parameters} {tag : Json} {p q : Edge → Bool} {key : Nat}

/-- The graph without its stale edges that satisfy a condition. -/
def dropEdges (g : Graph) (tag : Json) (p : Edge → Bool) : Graph :=
  { g with edges := g.edges.filter fun _ e => !(e.properties.isStale tag && p e) }

theorem removeEdges_staleEdges (g : Graph) (tag : Json) (p : Edge → Bool) :
    g.removeEdges (g.staleEdges tag p) = g.dropEdges tag p := by
  simp only [removeEdges, dropEdges]
  congr 1
  refine SortedMap.filter_congr fun k e he => ?_
  have hmem : k ∈ g.staleEdges tag p ↔ (e.properties.isStale tag && p e) = true := by
    simp [mem_staleEdges, he]
  rw [Bool.eq_iff_iff]
  simp [hmem]

theorem find?_dropEdges {e : Edge} : (g.dropEdges tag p).edges.find? key = some e ↔
    g.edges.find? key = some e ∧ ¬ (e.properties.isStale tag = true ∧ p e = true) := by
  simp only [dropEdges, SortedMap.find?_filter, Option.filter_eq_some_iff, Bool.not_eq_true',
    ← Bool.not_eq_true, Bool.and_eq_true]

theorem dropEdges_dropEdges :
    (g.dropEdges tag p).dropEdges tag q = g.dropEdges tag fun e => p e || q e := by
  simp only [dropEdges, SortedMap.filter_filter]
  congr 2
  funext _ e
  cases e.properties.isStale tag <;> cases p e <;> cases q e <;> rfl

theorem dropEdges_congr (h : ∀ k e, g.edges.find? k = some e → p e = q e) :
    g.dropEdges tag p = g.dropEdges tag q := by
  simp only [dropEdges]
  congr 1
  exact SortedMap.filter_congr fun k e he => by rw [h k e he]

theorem within_dropEdges : (g.dropEdges tag p).Within g :=
  removeEdges_staleEdges g tag p ▸ within_removeEdges _ _

/-- Dropping edges that are no ownership changes the scope of no node. -/
theorem inScope_dropEdges {scope : Option Scope}
    (hp : ∀ e, p e = true → ∀ sc, scope = some sc → e.edgeType ≠ sc.edgeType) :
    (g.dropEdges tag p).inScope params scope key = g.inScope params scope key := by
  rw [Bool.eq_iff_iff]
  refine ⟨within_dropEdges.inScope, fun hi => ?_⟩
  cases scope with
  | none => rfl
  | some sc =>
    rw [← removeEdges_staleEdges]
    refine isOwned_removeEdges hi fun k hk e he => ?_
    obtain ⟨y, hy, -, hpe⟩ := mem_staleEdges.1 hk
    cases he.symm.trans hy
    exact hp e hpe sc rfl

theorem isScopedEdge_dropEdges {label : String} {scope : Option Scope} {r : EdgePattern}
    {x : Edge} (hp : ∀ e, p e = true → ∀ sc, scope = some sc → e.edgeType ≠ sc.edgeType) :
    (g.dropEdges tag p).isScopedEdge params label scope r x =
      g.isScopedEdge params label scope r x := by
  rw [isScopedEdge, isScopedEdge, inScope_dropEdges hp]
  rfl

theorem edgeType_of_isScopedEdge {label : String} {scope : Option Scope} {r : EdgePattern}
    {x : Edge} (hx : g.isScopedEdge params label scope r x = true) :
    x.edgeType = r.edgeType := by
  simp only [isScopedEdge, hasPattern, Bool.and_eq_true, beq_iff_eq] at hx
  exact hx.1.1.1

end Graph

/-- A steady sweep of edges takes away what it finds at the start. -/
theorem Sweep.Paged.eq_dropEdges {tag : Json} {p : Graph → Edge → Bool}
    {hp : ∀ {g h e}, h.Within g → p h e = true → p g e = true} {size : Nat} {g h : Graph}
    {keys : List Nat} (hpaged : (Sweep.ofEdges tag p hp).Paged size g keys h)
    (hs : (Sweep.ofEdges tag p hp).Steady g) : h = g.dropEdges tag (p g) := by
  rw [hpaged.eq_strike, hpaged.eq_targets hs]
  exact Graph.removeEdges_staleEdges _ _ _

namespace NodeSchema

/-- The type by which cleanup tells its owners is used by no other edge of the schema. -/
def OwnershipApart (s : NodeSchema) : Prop :=
  ∀ o, s.scopingEdge = some o → ∀ e ∈ s.edges, e.edgeType ≠ o.edgeType

instance (s : NodeSchema) : Decidable s.OwnershipApart :=
  inferInstanceAs (Decidable (∀ o ∈ s.scopingEdge, ∀ e ∈ s.edges, e.edgeType ≠ o.edgeType))

/-- Whether an edge comes to a node of the schema from an owner in scope, or without a scope
from any node of the owner's label. -/
def isOwnerEdge (s : NodeSchema) (params : Parameters) (g : Graph) (e : Edge) : Bool :=
  match s.scope with
  | some scope => g.isOwnership params s.label scope e
  | none => s.owner.any fun o => g.hasPattern s.label o.pattern e

/-- Whether an edge has the pattern of another edge of the schema, at a node in scope. -/
def isOtherEdge (s : NodeSchema) (params : Parameters) (g : Graph) (e : Edge) : Bool :=
  s.edges.any fun r => g.isScopedEdge params s.label s.scope r.pattern e

def edgeSweep (s : NodeSchema) (params : Parameters) (tag : Json) (e : EdgeSchema) : Sweep :=
  .ofEdges tag (fun g => g.isScopedEdge params s.label s.scope e.pattern)
    Graph.Within.isScopedEdge

def ownerSweeps (s : NodeSchema) (params : Parameters) (tag : Json) : List Sweep :=
  (s.ownershipSweep.bind (Statement.sweep? params tag)).toList

variable {s : NodeSchema} {params : Parameters} {tag : Json} {size n : Nat} {g h : Graph}

theorem sweeps_eq : s.sweeps params tag = .ofNodes params tag s.label s.scope ::
    (s.edges.map (s.edgeSweep params tag) ++ s.ownerSweeps params tag) := by
  have hothers : s.edges.filterMap (Statement.sweep? params tag ∘ fun e =>
      .sweepEdges s.label s.scope e.pattern) = s.edges.map (s.edgeSweep params tag) :=
    List.filterMap_eq_map ▸ rfl
  have howner : s.ownershipSweep.toList.filterMap (Statement.sweep? params tag) =
      s.ownerSweeps params tag := by
    cases hs : s.ownershipSweep with
    | none => simp [ownerSweeps, hs]
    | some statement => cases hw : statement.sweep? params tag <;> simp [ownerSweeps, hs, hw]
  have hnodes : Statement.sweep? params tag (.sweepNodes s.label s.scope) =
      some (.ofNodes params tag s.label s.scope) := rfl
  rw [sweeps, cleanupStatements, List.cons_append, List.filterMap_cons_some hnodes,
    List.filterMap_append, List.filterMap_map, hothers, howner]

/-- A sweep of edges looks for the pattern of one of the schema's edges, or for edges that come
from an owner in scope. -/
theorem edgeSweep_cases {w : Sweep} {es : List EdgeSchema}
    (hw : w ∈ es.map (s.edgeSweep params tag) ++ s.ownerSweeps params tag) :
    (∃ e ∈ es ++ s.owner.toList,
      w = .ofEdges tag (fun g => g.isScopedEdge params s.label s.scope e.pattern)
        Graph.Within.isScopedEdge) ∨
    ∃ o, s.scopingEdge = some o ∧
      w = .ofEdges tag (fun g => g.isOwnership params s.label ⟨o.edgeType, o.target⟩)
        Graph.Within.isOwnership := by
  rcases List.mem_append.1 hw with hw | hw
  · obtain ⟨e, he, rfl⟩ := List.mem_map.1 hw
    exact .inl ⟨e, List.mem_append_left _ he, rfl⟩
  · rw [ownerSweeps, Option.mem_toList, Option.bind_eq_some_iff] at hw
    obtain ⟨st, hst, hw⟩ := hw
    rw [ownershipSweep] at hst
    cases hs : s.scope with
    | some scope =>
      obtain ⟨o, ho, rfl⟩ := scope_eq_some_iff.1 hs
      rw [hs] at hst
      cases hst
      cases hw
      exact .inr ⟨o, ho, rfl⟩
    | none =>
      rw [hs] at hst
      obtain ⟨o, ho, rfl⟩ := Option.map_eq_some_iff.1 hst
      cases hw
      exact .inl ⟨o, List.mem_append_right _ (Option.mem_toList.2 ho), rfl⟩

/-- The sweeps of the other edges, one by one, take away what all of them find at the start. -/
theorem run_edgeSweeps {es : List EdgeSchema} {rest : List Sweep}
    (hes : ∀ e ∈ es, ∀ scope, s.scope = some scope → e.edgeType ≠ scope.edgeType)
    (hr : Sweep.Run size (es.map (s.edgeSweep params tag) ++ rest) g n h) :
    ∃ m, Sweep.Run size rest (g.dropEdges tag fun x => es.any fun e =>
      g.isScopedEdge params s.label s.scope e.pattern x) m h := by
  induction es generalizing g n with
  | nil =>
    refine ⟨n, ?_⟩
    have hg : (g.dropEdges tag fun _ => false) = g := by
      simp [Graph.dropEdges, SortedMap.filter_true]
    simpa [hg] using hr
  | cons e es ih =>
    obtain ⟨he, hes⟩ := List.forall_mem_cons.1 hes
    cases hr with
    | cons first hrest =>
      have hmid := first.eq_dropEdges (Sweep.steady_isScopedEdge he)
      obtain ⟨m, hm⟩ := ih hes hrest
      refine ⟨m, ?_⟩
      have htype : ∀ x, g.isScopedEdge params s.label s.scope e.pattern x = true →
          ∀ scope, s.scope = some scope → x.edgeType ≠ scope.edgeType := fun x hx scope hs => by
        rw [Graph.edgeType_of_isScopedEdge hx]
        exact he scope hs
      simp only [hmid, Graph.isScopedEdge_dropEdges htype, Graph.dropEdges_dropEdges] at hm
      simpa only [List.any_cons] using hm

theorem run_ownerSweeps (hr : Sweep.Run size (s.ownerSweeps params tag) g n h) :
    h = g.dropEdges tag (s.isOwnerEdge params g) := by
  have hnone : (g.dropEdges tag fun _ => false) = g := by
    simp [Graph.dropEdges, SortedMap.filter_true]
  cases hs : s.scope with
  | some scope =>
    simp only [ownerSweeps, ownershipSweep, hs, Option.bind_some, Statement.sweep?,
      Option.toList_some] at hr
    cases hr with
    | cons first hrest =>
      cases hrest
      have hcond : s.isOwnerEdge params g = g.isOwnership params s.label scope := by
        funext e
        simp [isOwnerEdge, hs]
      rw [hcond]
      exact first.eq_dropEdges Sweep.steady_isOwnership
  | none =>
    cases ho : s.owner with
    | none =>
      simp only [ownerSweeps, ownershipSweep, hs, ho, Option.map_none, Option.bind_none,
        Option.toList_none] at hr
      cases hr
      have hcond : s.isOwnerEdge params g = fun _ => false := by
        funext e
        simp [isOwnerEdge, hs, ho]
      rw [hcond, hnone]
    | some o =>
      simp only [ownerSweeps, ownershipSweep, hs, ho, Option.map_some, Option.bind_some,
        Statement.sweep?, Option.toList_some] at hr
      cases hr with
      | cons first hrest =>
        cases hrest
        have hcond : s.isOwnerEdge params g = g.isScopedEdge params s.label none o.pattern := by
          funext e
          simp [isOwnerEdge, hs, ho, Graph.isScopedEdge, Graph.inScope]
        rw [hcond]
        exact first.eq_dropEdges Sweep.steady_unscoped

/-- Whether a cleanup that starts with a graph takes a node away: it is a stale node of the
schema's label, and owned if cleanup is scoped. -/
def SweepsNode (s : NodeSchema) (params : Parameters) (tag : Json) (g : Graph) (key : Nat) : Prop :=
  ∃ n, g.nodes.find? key = some n ∧ n.hasLabel s.label = true ∧
    n.properties.isStale tag = true ∧ g.inScope params s.scope key = true

/-- Whether it takes an edge away though both of its nodes stay: a stale one, of the pattern of
one of the schema's other edges at a node in scope, or between a node and its owner. -/
def SweepsEdge (s : NodeSchema) (params : Parameters) (tag : Json) (g : Graph) (e : Edge) : Prop :=
  e.properties.isStale tag = true ∧
    (s.isOtherEdge params g e = true ∨ s.isOwnerEdge params g e = true)

theorem mem_staleNodes_iff_sweepsNode {key : Nat} :
    key ∈ g.staleNodes params tag s.label s.scope ↔ s.SweepsNode params tag g key :=
  Graph.mem_staleNodes

theorem inScope_removeNodes_staleNodes {key : Nat} (ha : s.OwnersApart g)
    (hk : key ∉ g.staleNodes params tag s.label s.scope) :
    (g.removeNodes (g.staleNodes params tag s.label s.scope)).inScope params s.scope key =
      g.inScope params s.scope key := by
  rw [Bool.eq_iff_iff]
  refine ⟨(Graph.within_removeNodes _ _).inScope, fun hi => ?_⟩
  cases hs : s.scope with
  | none => rfl
  | some scope =>
    rw [hs] at hi hk
    refine Graph.isOwned_removeNodes hi hk fun k hk => ?_
    obtain ⟨n, hn, hl, -⟩ := Graph.mem_staleNodes.1 hk
    exact ha.not_isOwner hs (Graph.hasLabel_iff.2 ⟨n, hn, hl⟩)

theorem hasLabel_removeNodes_eq {keys : List Nat} {key : Nat} {label : String} (hk : key ∉ keys) :
    (g.removeNodes keys).hasLabel key label = g.hasLabel key label := by
  rw [Graph.hasLabel, Graph.find?_nodes_removeNodes, if_neg hk]
  rfl

/-- Which edges go can be told before the stale nodes have gone, for those that outlast them. -/
theorem isOtherEdge_removeNodes {e : Edge} (ha : s.OwnersApart g)
    (hstart : e.start ∉ g.staleNodes params tag s.label s.scope)
    (hfinish : e.finish ∉ g.staleNodes params tag s.label s.scope) :
    s.isOtherEdge params (g.removeNodes (g.staleNodes params tag s.label s.scope)) e =
      s.isOtherEdge params g e := by
  have hends : ∀ d, (e.ends d).1 ∉ g.staleNodes params tag s.label s.scope ∧
      (e.ends d).2 ∉ g.staleNodes params tag s.label s.scope := by
    intro d
    cases d
    · exact ⟨hfinish, hstart⟩
    · exact ⟨hstart, hfinish⟩
  simp only [isOtherEdge, Graph.isScopedEdge, Graph.hasPattern,
    hasLabel_removeNodes_eq (hends _).1, hasLabel_removeNodes_eq (hends _).2,
    inScope_removeNodes_staleNodes ha (hends _).1]

theorem isOwnerEdge_removeNodes {e : Edge} {keys : List Nat} (hstart : e.start ∉ keys)
    (hfinish : e.finish ∉ keys) :
    s.isOwnerEdge params (g.removeNodes keys) e = s.isOwnerEdge params g e := by
  have hends : ∀ d, (e.ends d).1 ∉ keys ∧ (e.ends d).2 ∉ keys := by
    intro d
    cases d
    · exact ⟨hfinish, hstart⟩
    · exact ⟨hstart, hfinish⟩
  have howner : ∀ scope, (g.removeNodes keys).isOwner params scope e.start =
      g.isOwner params scope e.start := by
    intro scope
    rw [Graph.isOwner, Graph.find?_nodes_removeNodes, if_neg hstart]
    rfl
  simp only [isOwnerEdge, Graph.isOwnership, Graph.hasPattern, howner,
    hasLabel_removeNodes_eq hfinish, hasLabel_removeNodes_eq (hends _).1,
    hasLabel_removeNodes_eq (hends _).2]

/-- Sweeps of edges leave the nodes alone. -/
theorem nodes_of_run {ws : List Sweep} (hr : Sweep.Run size ws g n h)
    (hws : ∀ w ∈ ws, w.strike = Graph.removeEdges) : h.nodes = g.nodes := by
  induction hr with
  | nil => rfl
  | cons first _ ih =>
    obtain ⟨hw, hrest⟩ := List.forall_mem_cons.1 hws
    rw [ih hrest, first.eq_strike, hw]
    rfl

/-- All sweeps but the first take edges alone. -/
theorem strike_eq_removeEdges {w : Sweep} {es : List EdgeSchema}
    (hw : w ∈ es.map (s.edgeSweep params tag) ++ s.ownerSweeps params tag) :
    w.strike = Graph.removeEdges := by
  rcases edgeSweep_cases hw with ⟨e, -, rfl⟩ | ⟨o, -, rfl⟩
  · rfl
  · rfl

/-- A cleanup takes nodes away first, page by page, and goes on with the sweeps of edges. -/
theorem exists_paged_of_run (hr : Sweep.Run size (s.sweeps params tag) g n h) :
    ∃ keys count, (Sweep.ofNodes params tag s.label s.scope).Paged size g keys
        (g.removeNodes keys) ∧
      Sweep.Run size (s.edges.map (s.edgeSweep params tag) ++ s.ownerSweeps params tag)
        (g.removeNodes keys) count h ∧
      n = keys.length + count := by
  rw [sweeps_eq] at hr
  cases hr with
  | @cons _ _ _ mid _ keys count first rest =>
    have hmid : mid = g.removeNodes keys := first.eq_strike
    subst hmid
    exact ⟨keys, count, first, rest, rfl⟩

/-- With owners apart from the schema's nodes, the nodes that go are the stale ones in scope at
the start, whatever edges the other sweeps take. -/
theorem nodes_of_run_sweeps (ha : s.OwnersApart g)
    (hr : Sweep.Run size (s.sweeps params tag) g n h) :
    h.nodes = (g.removeNodes (g.staleNodes params tag s.label s.scope)).nodes := by
  obtain ⟨keys, count, first, rest, -⟩ := exists_paged_of_run hr
  obtain rfl := first.eq_targets (Sweep.steady_ofNodes ha)
  exact nodes_of_run rest fun w hw => strike_eq_removeEdges hw

/-- With owners apart from the schema's nodes and a type of their own for ownership, the sweeps
leave exactly what the filters leave of the graph they start with. -/
theorem run_sweeps (ha : s.OwnersApart g) (ht : s.OwnershipApart)
    (hr : Sweep.Run size (s.sweeps params tag) g n h) :
    h = (g.removeNodes (g.staleNodes params tag s.label s.scope)).dropEdges tag fun e =>
      s.isOtherEdge params g e || s.isOwnerEdge params g e := by
  have htype : ∀ e ∈ s.edges, ∀ scope, s.scope = some scope → e.edgeType ≠ scope.edgeType := by
    intro e he scope hs
    obtain ⟨o, ho, rfl⟩ := scope_eq_some_iff.1 hs
    exact ht o ho e he
  obtain ⟨keys, count, first, rest, -⟩ := exists_paged_of_run hr
  obtain rfl : keys = g.staleNodes params tag s.label s.scope :=
    first.eq_targets (Sweep.steady_ofNodes ha)
  obtain ⟨m, hothers⟩ := run_edgeSweeps htype rest
  have hfinal := run_ownerSweeps hothers
  have howner : ∀ (i : Graph) p, s.isOwnerEdge params (i.dropEdges tag p) =
      s.isOwnerEdge params i := fun _ _ => rfl
  rw [howner, Graph.dropEdges_dropEdges] at hfinal
  refine hfinal.trans (Graph.dropEdges_congr fun k e he => ?_)
  have hkept := Option.filter_eq_some_iff.1 ((Graph.find?_edges_removeNodes _ _ _).symm.trans he)
  simp only [Bool.and_eq_true, Bool.not_eq_true', List.contains_eq_mem,
    decide_eq_false_iff_not] at hkept
  congr 1
  · exact isOtherEdge_removeNodes ha hkept.2.1 hkept.2.2
  · exact isOwnerEdge_removeNodes hkept.2.1 hkept.2.2

/-- A cleanup leaves the graph it starts with but for the stale nodes in scope, every edge at one
of them, and the stale edges of the schema's patterns at nodes in scope; all that it leaves is
unchanged. The size of its pages has no part in this. -/
theorem cleanup_leaves_the_rest {now : Int} {common : CommonParameters} (ha : s.OwnersApart g)
    (ht : s.OwnershipApart) (hrun : (Job.cleanup s common).run now g = (.ok n, h)) :
    (∀ key node, h.nodes.find? key = some node ↔ g.nodes.find? key = some node ∧
      ¬ s.SweepsNode common.bound (.int common.tag) g key) ∧
    (∀ key e, h.edges.find? key = some e ↔ g.edges.find? key = some e ∧
      ¬ s.SweepsNode common.bound (.int common.tag) g e.start ∧
      ¬ s.SweepsNode common.bound (.int common.tag) g e.finish ∧
      ¬ s.SweepsEdge common.bound (.int common.tag) g e) ∧
    h.indexes = g.indexes ∧ h.lastKey = g.lastKey := by
  have hleft := run_sweeps ha ht (sweeps_of_run hrun)
  refine ⟨fun key node => ?_, fun key e => ?_, ?_, ?_⟩
  · rw [← mem_staleNodes_iff_sweepsNode, hleft, Graph.dropEdges, Graph.find?_nodes_removeNodes]
    split <;> simp_all
  · rw [hleft, Graph.find?_dropEdges, Graph.find?_edges_removeNodes, Option.filter_eq_some_iff,
      ← mem_staleNodes_iff_sweepsNode, ← mem_staleNodes_iff_sweepsNode, SweepsEdge]
    simp only [Bool.and_eq_true, Bool.not_eq_true', List.contains_eq_mem,
      decide_eq_false_iff_not, Bool.or_eq_true, and_assoc]
  · rw [hleft]
    rfl
  · rw [hleft]
    rfl

end NodeSchema

/-- The old bucket goes, with the edge from its project; of the new one only an old tag goes. -/
theorem NodeSchema.cleanup_leaves_the_rest_of_sample :
    ∃ n h, (Job.cleanup Sample.bucket Sample.common).run 9 Sample.stored = (.ok n, h) ∧
      (∀ key node, h.nodes.find? key = some node ↔ Sample.stored.nodes.find? key = some node ∧
        ¬ Sample.bucket.SweepsNode Sample.common.bound (.int 2) Sample.stored key) ∧
      h.lastKey = 7 := by
  obtain ⟨n, h, -, hrun⟩ := run_cleanup 9 Sample.stored Sample.check_cleanup
  have hleft := cleanup_leaves_the_rest (by decide) (by decide +kernel) hrun
  exact ⟨n, h, hrun, hleft.1, hleft.2.2.2⟩

end GraphSync
