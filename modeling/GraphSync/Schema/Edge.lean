import GraphSync.Schema.Mapping

/-! Edges of a node type, and standalone edges between nodes that are already stored. -/
namespace GraphSync

/-- Direction as seen from the loaded node. -/
inductive Direction where
  | inward
  | outward
deriving DecidableEq, Repr

namespace Direction

def text : Direction → String
  | inward => "inward"
  | outward => "outward"

def decode : Decoder Direction := Decoder.named [inward, outward] text fun _ => false

/-- Start and end of an edge between a node and the other one. -/
def orient {α : Type} (d : Direction) (node other : α) : α × α :=
  match d with
  | outward => (node, other)
  | inward => (other, node)

end Direction

/-- Nodes of a label that a matcher accepts. -/
structure Endpoint where
  label : String
  matcher : Matcher

/-- An edge schema before it is checked. An edge with a source of its own stands alone. -/
structure EdgePlan where
  edgeType : String
  direction : Direction
  target : Endpoint
  properties : EdgeProperties
  source : Option Endpoint

namespace EdgePlan

def IsMatchLink (p : EdgePlan) : Prop := p.source.isSome = true

instance (p : EdgePlan) : Decidable p.IsMatchLink := inferInstanceAs (Decidable (_ = _))

/-- Labels are identifiers, and a standalone edge says to whom it belongs. -/
structure Valid (p : EdgePlan) : Prop where
  edgeType : isIdentifier p.edgeType = true
  target : isIdentifier p.target.label = true
  source : ∀ s, p.source = some s → isIdentifier s.label = true
  owned : p.IsMatchLink →
    p.properties.DeclaresBatch Names.ownerLabel ∧ p.properties.DeclaresBatch Names.ownerId

def identifierFault? (owner identifier : String) : Option SchemaError :=
  if isIdentifier identifier then none else some (.invalidIdentifier owner identifier)

/-- Sweeps read the owner without a record, so it has to be the same for every record. -/
def ownerFault? (p : EdgePlan) (name : String) : Option SchemaError :=
  match p.properties.mapping.ref? name with
  | none => some (.missingProperty p.edgeType name)
  | some r => if r.isBatch then none else some (.ownerMatcher p.edgeType name .perRecord)

def sourceFault? (p : EdgePlan) : Option SchemaError :=
  match p.source with
  | none => none
  | some s => (identifierFault? p.edgeType s.label).or
      ((p.ownerFault? Names.ownerLabel).or (p.ownerFault? Names.ownerId))

def fault? (p : EdgePlan) : Option SchemaError :=
  (identifierFault? p.edgeType p.edgeType).or
    ((identifierFault? p.edgeType p.target.label).or p.sourceFault?)

theorem identifierFault?_eq_none_iff {owner identifier : String} :
    identifierFault? owner identifier = none ↔ isIdentifier identifier = true := by
  simp [identifierFault?]

theorem ownerFault?_eq_none_iff {p : EdgePlan} {name : String} :
    p.ownerFault? name = none ↔ p.properties.DeclaresBatch name := by
  simp only [ownerFault?, EdgeProperties.DeclaresBatch]
  split <;> simp_all [PropertyRef.isBatch]

theorem fault?_eq_none_iff {p : EdgePlan} : p.fault? = none ↔ p.Valid := by
  simp only [fault?, sourceFault?, Option.or_eq_none_iff, identifierFault?_eq_none_iff]
  cases hs : p.source with
  | none =>
    refine ⟨fun h => ⟨h.1, h.2.1, by simp [hs], by simp [IsMatchLink, hs]⟩, fun h => ?_⟩
    exact ⟨h.edgeType, h.target, rfl⟩
  | some s =>
    simp only [Option.or_eq_none_iff, identifierFault?_eq_none_iff, ownerFault?_eq_none_iff]
    refine ⟨fun h => ⟨h.1, h.2.1, by simp [hs, h.2.2.1], fun _ => h.2.2.2⟩, fun h => ?_⟩
    exact ⟨h.edgeType, h.target, h.source s hs, h.owned (by simp [IsMatchLink, hs])⟩

end EdgePlan

/-- A checked edge schema. -/
structure EdgeSchema extends EdgePlan where
  valid : toEdgePlan.Valid

def EdgePlan.build (p : EdgePlan) : Except SchemaError EdgeSchema :=
  SchemaError.checked p.fault? fun h => ⟨p, fault?_eq_none_iff.1 h⟩

theorem EdgePlan.build_eq_ok_iff {p : EdgePlan} {e : EdgeSchema} :
    p.build = .ok e ↔ e.toEdgePlan = p := by
  refine SchemaError.checked_eq_ok_iff (fun _ => rfl) ?_
  rintro rfl
  exact ⟨fault?_eq_none_iff.2 e.valid, rfl⟩

namespace EdgeSchema

/-- The source of a standalone edge. -/
def linkSource (e : EdgeSchema) : Except SchemaError Endpoint :=
  match e.source with
  | some s => .ok s
  | none => .error (.missingSource e.edgeType)

end EdgeSchema

end GraphSync
