import GraphSync.Error
import GraphSync.Ontology.Mapping

/-! Concepts, and what each module contributes to them. -/
namespace GraphSync

/-- A node type that several modules contribute to. -/
structure Concept where
  name : String
  label : String
  /-- The field that identifies a concept node. -/
  idField : String
deriving DecidableEq, Repr

inductive OntologyError where
  | unknownConcept (name : String)
  | unknownModule (concept moduleName : String)
  | schema (error : SchemaError)
  | graph (error : GraphError)
deriving DecidableEq, Repr

def OntologyError.message : OntologyError → String
  | unknownConcept name => "Unknown ontology concept: " ++ name
  | unknownModule concept moduleName =>
    "No ontology mapping for module '" ++ moduleName ++ "' under concept '" ++ concept ++ "'"
  | schema error => error.message
  | graph error => error.message

/-- A concept with its mappings by module name. -/
structure ConceptTable where
  concept : Concept
  modules : SortedMap String ModuleMapping

structure Ontology where
  tables : SortedMap String ConceptTable

namespace Ontology

def empty : Ontology := ⟨.empty⟩

def table (o : Ontology) (concept : String) : Except OntologyError ConceptTable :=
  match o.tables.find? concept with
  | some t => .ok t
  | none => .error (.unknownConcept concept)

def addConcept (o : Ontology) (c : Concept) : Except OntologyError Ontology :=
  if o.tables.contains c.name then .error (.schema (.duplicateSchema c.name))
  else .ok ⟨o.tables.insert c.name ⟨c, .empty⟩⟩

/-- Adds what a module contributes to a concept, once. -/
def addMapping (o : Ontology) (concept : String) (m : ModuleMapping) :
    Except OntologyError Ontology := do
  let t ← o.table concept
  if t.modules.contains m.name then
    .error (.schema (.duplicateSchema (concept ++ "/" ++ m.name)))
  else .ok ⟨o.tables.insert concept { t with modules := t.modules.insert m.name m }⟩

def concept (o : Ontology) (name : String) : Except OntologyError Concept :=
  (o.table name).map (·.concept)

def mapping (o : Ontology) (concept moduleName : String) :
    Except OntologyError ModuleMapping := do
  let t ← o.table concept
  match t.modules.find? moduleName with
  | some m => .ok m
  | none => .error (.unknownModule concept moduleName)

/-- Modules of a concept, in name order. -/
def modules (o : Ontology) (concept : String) : Except OntologyError (List String) :=
  (o.table concept).map (·.modules.keys)

end Ontology

namespace ConceptTable

/-- The ontology fields of every module, modules in name order. -/
def fields (t : ConceptTable) : List String :=
  t.modules.values.flatMap fun m => m.nodes.flatMap fun n => n.fields.map (·.ontologyField)

/-- Identity and mark, then every other field once and at its first place. -/
def entries (t : ConceptTable) : Mapping :=
  t.fields.foldl
    (fun m f => if f ∈ m.names then m else m ++ [(f, PropertyRef.field f)])
    [(Names.id, .field t.concept.idField), (Names.mark, .batch Names.loadTag)]

/-- The schema of concept nodes, which have no owner. -/
def nodeSchema (t : ConceptTable) : Except SchemaError NodeSchema := do
  let properties ← NodeProperties.ofMapping t.concept.label t.entries
  NodePlan.build ⟨t.concept.label, properties, [], none, [], false⟩

end ConceptTable

namespace Ontology

def nodeSchema (o : Ontology) (concept : String) : Except OntologyError NodeSchema := do
  let t ← o.table concept
  t.nodeSchema.mapError .schema

end Ontology

end GraphSync
