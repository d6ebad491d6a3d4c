import GraphSync.Schema.PropertyRef

/-! What can be wrong with a schema when it is put together. -/
namespace GraphSync

/-- The part of the graph that a label's cleanup may touch. -/
inductive CleanupScope where
  | unscoped
  /-- Nodes reached from an owner through an edge of this type. -/
  | owned (edgeType : String) (ownerLabel : String)
deriving DecidableEq, Repr

def CleanupScope.text : CleanupScope → String
  | unscoped => "unscoped"
  | owned edgeType ownerLabel => "(:" ++ ownerLabel ++ ")-[:" ++ edgeType ++ "]->"

/-- Why a property cannot say which owner is meant. -/
inductive OwnerFault where
  | inexact
  | manyValued
  | perRecord
deriving DecidableEq, Repr

def OwnerFault.text : OwnerFault → String
  | inexact => "must use exact matching"
  | manyValued => "cannot be one-to-many"
  | perRecord => "must be a batch parameter"

inductive SchemaError where
  | reservedProperty (owner property : String)
  | missingProperty (owner property : String)
  | duplicateProperty (owner property : String)
  | incompatibleModifiers (owner property : String) (mode : MatchMode)
  | invalidIdentifier (owner identifier : String)
  | multipleOneToMany (owner : String)
  | ownerDirection (owner edgeType : String)
  | ownerMatcher (owner property : String) (fault : OwnerFault)
  | embeddedMatchLink (owner edgeType : String)
  | scopeWithoutOwner (owner : String)
  | missingSource (owner : String)
  | scopeConflict (label : String) (existing incoming : CleanupScope)
  | duplicateSchema (key : String)
deriving DecidableEq, Repr

namespace SchemaError

def modeName : MatchMode → String
  | .exact => "Exact"
  | .caseInsensitive => "CaseInsensitive"
  | .fuzzyCaseInsensitive => "FuzzyCaseInsensitive"

def message : SchemaError → String
  | reservedProperty owner property =>
    owner ++ ": property '" ++ property ++ "' is reserved and set automatically"
  | missingProperty owner property =>
    owner ++ ": mandatory property '" ++ property ++ "' is missing"
  | duplicateProperty owner property =>
    owner ++ ": property '" ++ property ++ "' is declared more than once"
  | incompatibleModifiers owner property mode =>
    owner ++ ": property '" ++ property ++ "' has incompatible modifiers: " ++
      "one-to-many cannot be combined with " ++ modeName mode ++ " matching"
  | invalidIdentifier owner identifier =>
    owner ++ ": '" ++ identifier ++ "' is not a valid graph identifier"
  | multipleOneToMany owner =>
    owner ++ ": a matcher may contain at most one one-to-many property"
  | ownerDirection owner edgeType =>
    owner ++ ": sub-resource relationship '" ++ edgeType ++ "' must be inward"
  | ownerMatcher owner property fault =>
    owner ++ ": sub-resource matcher property '" ++ property ++ "' " ++ fault.text
  | embeddedMatchLink owner edgeType =>
    owner ++ ": relationship '" ++ edgeType ++ "' is a match-link and cannot be embedded"
  | scopeWithoutOwner owner =>
    owner ++ ": scoped cleanup requires a sub-resource relationship"
  | missingSource owner =>
    owner ++ ": match-link requires a source label and source matcher"
  | scopeConflict label existing incoming =>
    "label '" ++ label ++ "' is already registered with scope " ++ existing.text ++
      ", refusing scope " ++ incoming.text
  | duplicateSchema key => "schema '" ++ key ++ "' is already registered"

variable {α β : Type} {fault : Option SchemaError} {make : fault = none → α} {part : α → β}
  {x : α} {p : β}

/-- What is put together if no fault is found. -/
def checked (fault : Option SchemaError) (make : fault = none → α) : Except SchemaError α :=
  match fault, make with
  | some e, _ => .error e
  | none, make => .ok (make rfl)

/-- The check passes exactly for the parts of something that it can put together. -/
theorem checked_eq_ok_iff (hmake : ∀ h, part (make h) = p)
    (hpass : part x = p → ∃ h, make h = x) : checked fault make = .ok x ↔ part x = p := by
  constructor
  · intro hx
    cases fault with
    | some e => cases hx
    | none =>
      cases hx
      exact hmake rfl
  · intro hp
    obtain ⟨h, rfl⟩ := hpass hp
    subst h
    rfl

end SchemaError

end GraphSync
