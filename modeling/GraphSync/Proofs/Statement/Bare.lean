import GraphSync.Proofs.Graph.Write

/-! The parts of schemas and statements that make a difference to a graph; equal in these, two
statements have the same effect. -/
namespace GraphSync

/-- Name and source of a reference, without modifiers. -/
def PropertyRef.bare (r : PropertyRef) : PropertyRef := ⟨r.name, r.source, false, .exact, .one⟩

theorem PropertyRef.resolve_bare (r : PropertyRef) : r.bare.resolve = r.resolve := rfl

theorem PropertyRef.resolve_of_bare {r q : PropertyRef} (h : r.bare = q.bare) :
    r.resolve = q.resolve := by
  rw [← resolve_bare r, h, resolve_bare]

namespace Mapping

/-- The names that a mapping sets, and where their values come from. -/
def bare (m : Mapping) : Mapping := m.map fun e => (e.1, e.2.bare)

variable {m m' : Mapping} {record r : Record} {params : Parameters}

theorem assignAll_of_bare (h : m.bare = m'.bare) :
    m.assignAll record params = m'.assignAll record params := by
  have hbare : ∀ m : Mapping, m.bare.assignAll record params = m.assignAll record params :=
    fun m => funext fun r => List.foldl_map
  rw [← hbare m, h, hbare]

end Mapping

namespace Matcher

/-- How a property of a node is compared: with a reference, or with the candidate of the moment. -/
def comparison (e : String × PropertyRef) : String × MatchMode × Option PropertyRef :=
  (e.1, e.2.matchMode, if e.2.isOneToMany then none else some e.2.bare)

def comparisons (m : Matcher) : List (String × MatchMode × Option PropertyRef) :=
  m.mapping.map comparison

/-- The reference whose elements are the candidates. -/
def unwound (m : Matcher) : Option PropertyRef := m.oneToMany?.map (·.2.bare)

variable {m m' : Matcher}

theorem accepts_of_comparisons (h : m.comparisons = m'.comparisons) :
    m.accepts = m'.accepts := by
  funext record params candidate n
  have hall : ∀ m : Matcher, m.accepts record params candidate n = m.comparisons.all fun c =>
      c.2.1.accepts (n.get? c.1) (c.2.2.elim candidate (·.resolve record params)) := by
    intro m
    rw [accepts, comparisons, List.all_map]
    congr 1
    funext e
    simp only [comparison, Function.comp]
    split <;> rfl
  rw [hall, h, hall]

theorem candidates_of_unwound (h : m.unwound = m'.unwound) : m.candidates = m'.candidates := by
  funext record params
  have hall : ∀ m : Matcher, m.candidates record params = m.unwound.elim [none] fun r =>
      (Json.elements (r.resolve record params)).map some := by
    intro m
    rw [candidates, unwound]
    cases m.oneToMany? <;> rfl
  rw [hall, h, hall]

end Matcher

/-- Endpoints that accept the same nodes, candidate by candidate. -/
structure Endpoint.Alike (p q : Endpoint) : Prop where
  label : p.label = q.label
  unwound : p.matcher.unwound = q.matcher.unwound
  compared : p.matcher.comparisons = q.matcher.comparisons

/-- Edge schemas that write the same edges. -/
structure EdgeSchema.Alike (e f : EdgeSchema) : Prop where
  target : e.target.Alike f.target
  edgeType : e.edgeType = f.edgeType
  direction : e.direction = f.direction
  written : e.properties.mapping.bare = f.properties.mapping.bare

/-- Scopes that mean the same owners. -/
structure Scope.Alike (s t : Scope) : Prop where
  edgeType : s.edgeType = t.edgeType
  label : s.owner.label = t.owner.label
  compared : s.owner.matcher.comparisons = t.owner.matcher.comparisons

/-- Statements that do the same to every graph at any time, whatever their parameters. -/
def Statement.SameEffect (st st' : Statement) : Prop :=
  ∀ now g params, Graph.apply now g st params = Graph.apply now g st' params

namespace Graph

variable {g : Graph} {now : Int} {record : Record} {params : Parameters} {e f : EdgeSchema}
  {p q : Endpoint} {s t : Scope}

theorem matching_of_alike (h : p.Alike q) : g.matching record params p =
    g.matching record params q := by
  simp only [matching, h.label, Matcher.candidates_of_unwound h.unwound,
    Matcher.accepts_of_comparisons h.compared]

theorem upsertRows_of_alike {rows rows' : Record → List (Nat × Nat)} (h : e.Alike f)
    (hrows : rows = rows') : g.upsertRows now e params rows = g.upsertRows now f params rows' := by
  have hwrite : writeEdge now e params = writeEdge now f params := by
    funext record g row
    rw [writeEdge_eq_touchEdge, writeEdge_eq_touchEdge, h.edgeType, h.direction,
      Mapping.assignAll_of_bare h.written]
  simp only [upsertRows, writeEdges, hwrite, hrows]

theorem isOwner_of_alike (h : s.Alike t) : g.isOwner params s = g.isOwner params t := by
  funext key
  simp only [isOwner, h.label, Matcher.accepts_of_comparisons h.compared]

theorem isOwned_of_alike (h : s.Alike t) : g.isOwned params s = g.isOwned params t := by
  funext key
  simp only [isOwned, h.edgeType, isOwner_of_alike h]

theorem inScope_of_alike (h : s.Alike t) :
    g.inScope params (some s) = g.inScope params (some t) := by
  funext key
  simp only [inScope, Option.all_some, isOwned_of_alike h]

end Graph

namespace Statement.SameEffect

variable {label : String} {e : EdgePattern} {s t : Scope}

theorem refl (st : Statement) : SameEffect st st := fun _ _ _ => rfl

theorem upsertNodes {u v : NodeUpsert} (hlabel : u.label = v.label)
    (hextra : u.extraLabels = v.extraLabels) (hid : u.properties.id.bare = v.properties.id.bare)
    (hassigned : u.properties.assigned.bare = v.properties.assigned.bare) :
    SameEffect (.upsertNodes u) (.upsertNodes v) := by
  intro now g params
  have hwrite : Graph.writeNode now u params = Graph.writeNode now v params := by
    funext g record
    simp only [Graph.writeNode, PropertyRef.resolve_of_bare hid, hlabel, hextra,
      Mapping.assignAll_of_bare hassigned]
  simp only [Graph.apply, Graph.upsertNodes, hwrite]

theorem upsertEdges {u v : EdgeUpsert} (hlabel : u.nodeLabel = v.nodeLabel)
    (hid : u.nodeId.bare = v.nodeId.bare) (hedge : u.edge.Alike v.edge) :
    SameEffect (.upsertEdges u) (.upsertEdges v) := by
  intro now g params
  refine Graph.upsertRows_of_alike hedge (funext fun record => ?_)
  simp only [Graph.edgeRows, PropertyRef.resolve_of_bare hid, hlabel,
    Graph.matching_of_alike hedge.target]

theorem upsertLinks {u v : LinkUpsert} (hsource : u.source.Alike v.source)
    (hedge : u.edge.Alike v.edge) : SameEffect (.upsertLinks u) (.upsertLinks v) := by
  intro now g params
  refine Graph.upsertRows_of_alike hedge (funext fun record => ?_)
  simp only [Graph.linkRows, Graph.matching_of_alike hsource,
    Graph.matching_of_alike hedge.target]

theorem sweepNodes (h : s.Alike t) :
    SameEffect (.sweepNodes label (some s)) (.sweepNodes label (some t)) := fun now g params => by
  simp only [Graph.apply, Graph.sweepNodes, Graph.staleNodes, Graph.inScope_of_alike h]

theorem sweepOwnership (h : s.Alike t) :
    SameEffect (.sweepOwnership label s) (.sweepOwnership label t) := fun now g params => by
  have hedge : g.isOwnership params label s = g.isOwnership params label t := by
    funext e
    simp only [Graph.isOwnership, h.edgeType, Graph.isOwner_of_alike h]
  simp only [Graph.apply, hedge]

theorem sweepEdges (h : s.Alike t) :
    SameEffect (.sweepEdges label (some s) e) (.sweepEdges label (some t) e) :=
  fun now g params => by
    have hedge : g.isScopedEdge params label (some s) e =
        g.isScopedEdge params label (some t) e := by
      funext x
      simp only [Graph.isScopedEdge, Graph.inScope_of_alike h]
    simp only [Graph.apply, hedge]

theorem sweepLinks {l m : LinkSweep} (hsource : l.sourceLabel = m.sourceLabel)
    (hedge : l.edge = m.edge) (hlabel : l.ownerLabel.bare = m.ownerLabel.bare)
    (hid : l.ownerId.bare = m.ownerId.bare) : SameEffect (.sweepLinks l) (.sweepLinks m) :=
  fun now g params => by
    have hattributed : g.isAttributed params l = g.isAttributed params m := by
      funext x
      simp only [Graph.isAttributed, hsource, hedge, PropertyRef.resolve_of_bare hlabel,
        PropertyRef.resolve_of_bare hid]
    simp only [Graph.apply, hattributed]

end Statement.SameEffect

end GraphSync
