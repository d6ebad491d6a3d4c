import GraphSync.Json.Decode
import GraphSync.Record

/-! Where a property's value comes from, and how it is compared when it locates a node. -/
namespace GraphSync

/-- The graph identifiers: an ASCII letter or underscore, then letters, digits and underscores. -/
def isIdentifier (s : String) : Bool :=
  match s.toList with
  | [] => false
  | c :: rest => (c.isAlpha || c == '_') && rest.all fun c => c.isAlphanum || c == '_'

inductive ValueSource where
  /-- A field of the record at hand. -/
  | recordField
  /-- A parameter, the same for every record. -/
  | batchParameter
deriving DecidableEq, Repr

inductive MatchMode where
  | exact
  /-- Equality of lower-case forms. -/
  | caseInsensitive
  /-- The lower-case form contains the expected one. -/
  | fuzzyCaseInsensitive
deriving DecidableEq, Repr

inductive Cardinality where
  | one
  /-- The value is a list and each element is matched by itself. -/
  | oneToMany
deriving DecidableEq, Repr

structure PropertyRef where
  name : String
  source : ValueSource
  extraIndex : Bool := false
  matchMode : MatchMode := .exact
  cardinality : Cardinality := .one
deriving DecidableEq, Repr

namespace ValueSource

def text : ValueSource → String
  | recordField => "record_field"
  | batchParameter => "batch_parameter"

def decode : Decoder ValueSource :=
  Decoder.named [recordField, batchParameter] text fun _ => false

end ValueSource

namespace MatchMode

def text : MatchMode → String
  | exact => "exact"
  | caseInsensitive => "case_insensitive"
  | fuzzyCaseInsensitive => "fuzzy_case_insensitive"

def all : List MatchMode := [exact, caseInsensitive, fuzzyCaseInsensitive]

def decode : Decoder MatchMode := Decoder.named all text fun _ => false

end MatchMode

namespace Cardinality

def text : Cardinality → String
  | one => "one"
  | oneToMany => "one_to_many"

def decode : Decoder Cardinality := Decoder.named [one, oneToMany] text fun _ => false

end Cardinality

namespace PropertyRef

def field (name : String) : PropertyRef := ⟨name, .recordField, false, .exact, .one⟩

def batch (name : String) : PropertyRef := ⟨name, .batchParameter, false, .exact, .one⟩

def isOneToMany (r : PropertyRef) : Bool := r.cardinality == .oneToMany

def isBatch (r : PropertyRef) : Bool := r.source == .batchParameter

/-- A reference that can be matched: an element of a list is only ever compared exactly. -/
def WellFormed (r : PropertyRef) : Prop :=
  isIdentifier r.name = true ∧ (r.cardinality = .oneToMany → r.matchMode = .exact)

instance (r : PropertyRef) : Decidable r.WellFormed := inferInstanceAs (Decidable (_ ∧ _))

/-- The value referred to, null included. -/
def find? (r : PropertyRef) (record : Record) (params : Parameters) : Option Json :=
  match r.source with
  | .recordField => record.find? r.name
  | .batchParameter => params.find? r.name

/-- The value referred to, null counting as absent. -/
def resolve (r : PropertyRef) (record : Record) (params : Parameters) : Option Json :=
  Json.present (r.find? record params)

/-- Of the parameters, a value depends on the one that is referred to. -/
theorem resolve_congr {r : PropertyRef} {params others : Parameters} (record : Record)
    (h : r.source = .batchParameter → others.find? r.name = params.find? r.name) :
    r.resolve record others = r.resolve record params := by
  cases hsource : r.source with
  | recordField => simp only [resolve, find?, hsource]
  | batchParameter => simp only [resolve, find?, hsource, h hsource]

/-- The reference as it stands in statement text. -/
def text (r : PropertyRef) : String :=
  match r.source with
  | .recordField => "item." ++ r.name
  | .batchParameter => "$" ++ r.name

def toJson (r : PropertyRef) : Json :=
  .ofFields [("name", .str r.name), ("source", .str r.source.text),
    ("extra_index", .bool r.extraIndex), ("match_mode", .str r.matchMode.text),
    ("cardinality", .str r.cardinality.text)]

def decode : Decoder PropertyRef :=
  Decoder.record (field "") [
    .required "name" .text fun v r => { r with name := v },
    .required "source" ValueSource.decode fun v r => { r with source := v },
    .defaulted "extra_index" .flag fun v r => { r with extraIndex := v },
    .defaulted "match_mode" MatchMode.decode fun v r => { r with matchMode := v },
    .defaulted "cardinality" Cardinality.decode fun v r => { r with cardinality := v }]

end PropertyRef

end GraphSync
