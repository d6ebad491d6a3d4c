import GraphSync.Statement.Basic

/-! How nodes of a provider's labels become nodes of a concept, and how the two are linked. -/
namespace GraphSync

/-- What a source field is turned into. -/
inductive Handling where
  /-- A fixed value, whatever the source. -/
  | staticValue (value : Json)
  | toBoolean
  | invertBoolean
  /-- Whether the source or one of further fields is truthy. -/
  | orBoolean (extraFields : List String)
  /-- Whether neither the source nor any of further fields is truthy. -/
  | norBoolean (extraFields : List String)
  /-- Whether the source is one of the accepted values. -/
  | equalBoolean (accepted : List Json)

/-- Zero, empty values, false and null are not truthy. -/
def Json.isTruthy : Json → Bool
  | .null => false
  | .bool b => b
  | .num n => !n.isZero
  | .str s => !s.isEmpty
  | .arr items => !items.isEmpty
  | .obj fields => !fields.isEmpty

namespace Handling

/-- Whether the source or one of further fields is truthy. -/
def anyTruthy (node : Record) (field : String) (extraFields : List String) : Bool :=
  (field :: extraFields).any fun f => (node.find? f).any Json.isTruthy

/-- The value a node gets for a field. A missing source makes no truth value by itself. -/
def apply (node : Record) (field : String) : Handling → Json
  | staticValue value => value
  | toBoolean =>
    match node.present field with
    | some v => .bool v.isTruthy
    | none => .null
  | invertBoolean =>
    match node.present field with
    | some v => .bool !v.isTruthy
    | none => .null
  | orBoolean extraFields => .bool (anyTruthy node field extraFields)
  | norBoolean extraFields => .bool !(anyTruthy node field extraFields)
  | equalBoolean accepted => .bool ((node.present field).any fun v => accepted.any (·.same v))

def toJson : Handling → Json
  | staticValue value => .ofFields [("static_value", value)]
  | toBoolean => .str "to_boolean"
  | invertBoolean => .str "invert_boolean"
  | orBoolean extraFields =>
    .ofFields [("or_boolean", .ofFields [("extra_fields", .arr (extraFields.map .str))])]
  | norBoolean extraFields =>
    .ofFields [("nor_boolean", .ofFields [("extra_fields", .arr (extraFields.map .str))])]
  | equalBoolean accepted =>
    .ofFields [("equal_boolean", .ofFields [("accepted", .arr accepted)])]

/-- Reads what a choice carries, which has to be an object with one field that matters. -/
def decodeCarried {α : Type} (name : String) (item : Decoder α) (make : List α → Handling) :
    Option Draft → Except Fault Handling :=
  Decoder.carrying fun d =>
    match d with
    | .obj _ _ => (Decoder.record [] [.required name (.list item) fun v _ => v] d).map make
    | _ => .error .mismatch

def decode : Decoder Handling :=
  Decoder.variant fun name =>
    match name with
    | "static_value" => Decoder.carrying fun d => (Decoder.json d).map staticValue
    | "to_boolean" => Decoder.bare toBoolean
    | "invert_boolean" => Decoder.bare invertBoolean
    | "or_boolean" => decodeCarried "extra_fields" .text orBoolean
    | "nor_boolean" => decodeCarried "extra_fields" .text norBoolean
    | "equal_boolean" => decodeCarried "accepted" .json equalBoolean
    | _ => fun _ => .error .mismatch

end Handling

/-- A concept's field, read from a node's property. -/
structure FieldMapping where
  ontologyField : String
  nodeField : String
  /-- Nodes without this field are dropped. -/
  required : Bool := false
  handling : Option Handling := none

namespace FieldMapping

def project (m : FieldMapping) (node : Record) : Json :=
  match m.handling with
  | some h => h.apply node m.nodeField
  | none => .ofOption (node.find? m.nodeField)

def toJson (m : FieldMapping) : Json :=
  .ofFields [("ontology_field", .str m.ontologyField), ("node_field", .str m.nodeField),
    ("required", .bool m.required), ("handling", .ofOption (m.handling.map Handling.toJson))]

def decode : Decoder FieldMapping :=
  Decoder.record ⟨"", "", false, none⟩ [
    .required "ontology_field" .text fun v m => { m with ontologyField := v },
    .required "node_field" .text fun v m => { m with nodeField := v },
    .defaulted "required" .flag fun v m => { m with required := v },
    .defaulted "handling" (.optional Handling.decode) fun v m => { m with handling := v }]

end FieldMapping

structure NodeMapping where
  nodeLabel : String
  fields : List FieldMapping
  /-- Whether these nodes make concept nodes, or are only linked to them. -/
  eligible : Bool := true

namespace NodeMapping

/-- Projects fields in order, up to a required one that is null. -/
def projectFields (node : Record) : List FieldMapping → Record → Option Record
  | [], projected => some projected
  | m :: rest, projected =>
    let value := m.project node
    if m.required && value.isNull then none
    else projectFields node rest (projected.insert m.ontologyField value)

/-- The node as a record of the concept, unless a required field is null. -/
def project (m : NodeMapping) (node : Record) : Option Record :=
  projectFields node m.fields .empty

def toJson (m : NodeMapping) : Json :=
  .ofFields [("node_label", .str m.nodeLabel), ("fields", .arr (m.fields.map FieldMapping.toJson)),
    ("eligible_for_source", .bool m.eligible)]

def decode : Decoder NodeMapping :=
  Decoder.record ⟨"", [], true⟩ [
    .required "node_label" .text fun v m => { m with nodeLabel := v },
    .required "fields" (.list FieldMapping.decode) fun v m => { m with fields := v },
    .defaulted "eligible_for_source" .flag fun v m => { m with eligible := v }]

end NodeMapping

/-- What links concept nodes to provider nodes. -/
inductive LinkQuery where
  | link (link : PropertyLink)
  | raw (query : String)

namespace LinkQuery

def statement : LinkQuery → Statement
  | link l => .linkByProperty l
  | raw query => .raw query

def toJson : LinkQuery → Json
  | link l => .ofFields (("kind", .str "link") :: l.fields)
  | raw query => .ofFields [("kind", .str "raw"), ("query", .str query)]

def decodeBody (kind : String) (body : Draft) : Except Fault LinkQuery :=
  match kind with
  | "link" => (PropertyLink.decodeWith Decoder.isEmptyObject body).map link
  | "raw" => (Decoder.record "" [.required "query" .text fun v _ => v] body).map raw
  | _ => .error .mismatch

/-- Reads a query whose kind is one of its fields, or the first item of a list. -/
def decode : Decoder LinkQuery
  | .obj fields ending =>
    match fields.find? fun f => f.1.toOption == some "kind" with
    | some (_, kind) => do
      let kind ← Decoder.text kind
      decodeBody kind (.obj (fields.filter fun f => f.1.toOption != some "kind") ending)
    | none => .error .mismatch
  | .arr (kind :: items) ending => do
    let kind ← Decoder.text kind
    decodeBody kind (.arr items ending)
  | _ => .error .mismatch

end LinkQuery

structure LinkMapping where
  comment : String
  query : LinkQuery

namespace LinkMapping

def toJson (m : LinkMapping) : Json :=
  .ofFields [("comment", .str m.comment), ("query", m.query.toJson)]

def decode : Decoder LinkMapping :=
  Decoder.record ⟨"", .raw ""⟩ [
    .required "comment" .text fun v m => { m with comment := v },
    .required "query" LinkQuery.decode fun v m => { m with query := v }]

end LinkMapping

/-- What one module contributes to a concept. -/
structure ModuleMapping where
  name : String
  nodes : List NodeMapping
  links : List LinkMapping

namespace ModuleMapping

def toJson (m : ModuleMapping) : Json :=
  .ofFields [("module", .str m.name), ("nodes", .arr (m.nodes.map NodeMapping.toJson)),
    ("rels", .arr (m.links.map LinkMapping.toJson))]

def decode : Decoder ModuleMapping :=
  Decoder.record ⟨"", [], []⟩ [
    .required "module" .text fun v m => { m with name := v },
    .required "nodes" (.list NodeMapping.decode) fun v m => { m with nodes := v },
    .defaulted "rels" (.list LinkMapping.decode) fun v m => { m with links := v }]

end ModuleMapping

end GraphSync
