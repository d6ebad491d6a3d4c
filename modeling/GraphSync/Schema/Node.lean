import GraphSync.Schema.Edge

/-! Node types: properties, edges to other nodes, and the owner that scopes their cleanup. -/
namespace GraphSync

/-- A node schema before it is checked. -/
structure NodePlan where
  label : String
  properties : NodeProperties
  extraLabels : List String := []
  owner : Option EdgeSchema := none
  edges : List EdgeSchema := []
  scopedCleanup : Bool := true

namespace NodePlan

/-- A reference that names one owner for a whole batch. -/
def IdentifiesOwner (r : PropertyRef) : Prop :=
  r.matchMode = .exact ∧ r.cardinality = .one ∧ r.source = .batchParameter

/-- The edge to the owner points at the node, and its matcher needs no record. -/
structure OwnerValid (o : EdgeSchema) : Prop where
  embedded : o.source = none
  inward : o.direction = .inward
  exact : ∀ e ∈ o.target.matcher.mapping, IdentifiesOwner e.2

structure Valid (p : NodePlan) : Prop where
  label : isIdentifier p.label = true
  extraLabels : ∀ l ∈ p.extraLabels, isIdentifier l = true
  distinct : (p.label :: p.extraLabels).Nodup
  owner : ∀ o, p.owner = some o → OwnerValid o
  owned : p.scopedCleanup = true → p.owner.isSome = true
  embedded : ∀ e ∈ p.edges, e.source = none

/-- The first fault of extra labels, given the labels before them. -/
def labelsFault? (owner : String) : List String → List String → Option SchemaError
  | _, [] => none
  | seen, l :: rest =>
    (EdgePlan.identifierFault? owner l).or
      ((if l ∈ seen then some (.duplicateProperty owner (":" ++ l)) else none).or
        (labelsFault? owner (l :: seen) rest))

/-- Why an entry cannot name an owner. -/
def ownerRefFault? (r : PropertyRef) : Option OwnerFault :=
  if r.matchMode ≠ .exact then some .inexact
  else if r.isOneToMany then some .manyValued
  else if !r.isBatch then some .perRecord
  else none

def linkFault? (label : String) (e : EdgeSchema) : Option SchemaError :=
  if e.source.isSome then some (.embeddedMatchLink label e.edgeType) else none

def ownerFault? (label : String) (o : EdgeSchema) : Option SchemaError :=
  (linkFault? label o).or
    ((if o.direction = .inward then none else some (.ownerDirection label o.edgeType)).or
      (o.target.matcher.mapping.findSome? fun e =>
        (ownerRefFault? e.2).map (.ownerMatcher label e.1)))

def scopeFault? (p : NodePlan) : Option SchemaError :=
  match p.owner with
  | some o => ownerFault? p.label o
  | none => if p.scopedCleanup then some (.scopeWithoutOwner p.label) else none

def fault? (p : NodePlan) : Option SchemaError :=
  (EdgePlan.identifierFault? p.label p.label).or
    ((labelsFault? p.label [p.label] p.extraLabels).or
      (p.scopeFault?.or (p.edges.findSome? (linkFault? p.label))))

theorem labelsFault?_eq_none_iff {owner : String} {seen ls : List String} :
    labelsFault? owner seen ls = none ↔
      (∀ l ∈ ls, isIdentifier l = true ∧ l ∉ seen) ∧ ls.Nodup := by
  induction ls generalizing seen with
  | nil => simp [labelsFault?]
  | cons l rest ih =>
    rw [labelsFault?, Option.or_eq_none_iff, Option.or_eq_none_iff,
      EdgePlan.identifierFault?_eq_none_iff, ih, List.forall_mem_cons, List.nodup_cons]
    simp only [List.mem_cons, not_or, ite_eq_right_iff, reduceCtorEq, imp_false]
    constructor
    · rintro ⟨hi, hs, hr, hn⟩
      exact ⟨⟨⟨hi, hs⟩, fun x hx => ⟨(hr x hx).1, (hr x hx).2.2⟩⟩,
        fun hl => (hr l hl).2.1 rfl, hn⟩
    · rintro ⟨⟨⟨hi, hs⟩, hr⟩, hl, hn⟩
      exact ⟨hi, hs, fun x hx => ⟨(hr x hx).1, fun he => hl (he ▸ hx), (hr x hx).2⟩, hn⟩

theorem ownerRefFault?_eq_none_iff {r : PropertyRef} :
    ownerRefFault? r = none ↔ IdentifiesOwner r := by
  obtain ⟨name, source, extra, mode, cardinality⟩ := r
  cases mode <;> cases cardinality <;> cases source <;>
    simp [ownerRefFault?, IdentifiesOwner, PropertyRef.isOneToMany, PropertyRef.isBatch]

theorem linkFault?_eq_none_iff {label : String} {e : EdgeSchema} :
    linkFault? label e = none ↔ e.source = none := by
  simp [linkFault?]

theorem ownerFault?_eq_none_iff {label : String} {o : EdgeSchema} :
    ownerFault? label o = none ↔ OwnerValid o := by
  simp only [ownerFault?, Option.or_eq_none_iff, linkFault?_eq_none_iff,
    List.findSome?_eq_none_iff, Option.map_eq_none_iff, ownerRefFault?_eq_none_iff]
  refine ⟨fun h => ⟨h.1, by simpa using h.2.1, h.2.2⟩, fun h => ⟨h.embedded, ?_, h.exact⟩⟩
  simp [h.inward]

theorem fault?_eq_none_iff {p : NodePlan} : p.fault? = none ↔ p.Valid := by
  simp only [fault?, Option.or_eq_none_iff, EdgePlan.identifierFault?_eq_none_iff,
    labelsFault?_eq_none_iff, List.findSome?_eq_none_iff, linkFault?_eq_none_iff,
    List.mem_singleton]
  have hscope : p.scopeFault? = none ↔
      (∀ o, p.owner = some o → OwnerValid o) ∧
        (p.scopedCleanup = true → p.owner.isSome = true) := by
    simp only [scopeFault?]
    cases p.owner <;> simp [ownerFault?_eq_none_iff]
  rw [hscope]
  constructor
  · rintro ⟨hl, ⟨he, hn⟩, ⟨ho, hs⟩, hm⟩
    refine ⟨hl, fun l h => (he l h).1, List.nodup_cons.2 ⟨fun h => (he _ h).2 rfl, hn⟩, ho, hs, hm⟩
  · rintro ⟨hl, he, hn, ho, hs, hm⟩
    have hn := List.nodup_cons.1 hn
    exact ⟨hl, ⟨fun l h => ⟨he l h, fun heq => hn.1 (heq ▸ h)⟩, hn.2⟩, ⟨ho, hs⟩, hm⟩

end NodePlan

/-- A checked node schema. -/
structure NodeSchema extends NodePlan where
  valid : toNodePlan.Valid

def NodePlan.build (p : NodePlan) : Except SchemaError NodeSchema :=
  SchemaError.checked p.fault? fun h => ⟨p, fault?_eq_none_iff.1 h⟩

theorem NodePlan.build_eq_ok_iff {p : NodePlan} {s : NodeSchema} :
    p.build = .ok s ↔ s.toNodePlan = p := by
  refine SchemaError.checked_eq_ok_iff (fun _ => rfl) ?_
  rintro rfl
  exact ⟨fault?_eq_none_iff.2 s.valid, rfl⟩

namespace NodeSchema

/-- The edges in the order in which they are written, the one to the owner last. -/
def allEdges (s : NodeSchema) : List EdgeSchema := s.edges ++ s.owner.toList

/-- The edge that scopes cleanup. -/
def scopingEdge (s : NodeSchema) : Option EdgeSchema :=
  if s.scopedCleanup then s.owner else none

def cleanupScope (s : NodeSchema) : CleanupScope :=
  match s.scopingEdge with
  | some e => .owned e.edgeType e.target.label
  | none => .unscoped

end NodeSchema

end GraphSync
