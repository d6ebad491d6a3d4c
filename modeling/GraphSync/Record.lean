import GraphSync.Json.Basic

/-! Flat records, the parameters bound beside them, and the names with a fixed meaning. -/
namespace GraphSync

/-- Named values: an ingested record, or the properties of a stored node or edge. -/
abbrev Record := SortedMap String Json

/-- Values bound once for a whole batch. -/
abbrev Parameters := SortedMap String Json

namespace Names

/-- The parameter that holds the records of a batch. -/
def batch : String := "DictList"

/-- The parameter a load binds to its tag. -/
def loadTag : String := "lastupdated"

/-- The parameter that sweeps compare marks with. -/
def sweepTag : String := "UPDATE_TAG"

/-- The parameter that bounds what one page of a sweep removes. -/
def pageSize : String := "LIMIT_SIZE"

/-- The property that identifies a node among those of a label. -/
def id : String := "id"

/-- The property that carries the tag of the last run that wrote an entity. -/
def mark : String := "lastupdated"

/-- The property that carries the time of creation. -/
def firstSeen : String := "firstseen"

/-- Properties that attribute a standalone edge to an owner. -/
def ownerLabel : String := "_sub_resource_label"

def ownerId : String := "_sub_resource_id"

end Names

namespace Json

def ofRecord (r : Record) : Json := obj r.entries

def record? : Json → Option Record
  | obj fields => some (SortedMap.ofList fields)
  | _ => none

/-- A value, unless it is null. -/
def present : Option Json → Option Json
  | some null => none
  | v => v

theorem present_of_not_null {v : Json} (hv : v.isNull = false) : present (some v) = some v := by
  cases v with
  | null => cases hv
  | _ => rfl

/-- What is present is there, and is not null. -/
theorem present_eq_some_iff {w : Option Json} {v : Json} :
    present w = some v ↔ w = some v ∧ v.isNull = false := by
  constructor
  · intro hp
    rw [present.eq_def] at hp
    split at hp
    · cases hp
    · next hnull =>
      refine ⟨hp, ?_⟩
      cases v with
      | null => exact absurd hp hnull
      | _ => rfl
  · rintro ⟨rfl, hnull⟩
    exact present_of_not_null hnull

end Json

namespace Record

/-- The value of a property, null counting as absent. -/
def present (r : Record) (name : String) : Option Json := Json.present (r.find? name)

/-- Sets a property; an absent value removes it. -/
def assign (r : Record) (name : String) : Option Json → Record
  | some v => r.insert name v
  | none => r.erase name

theorem find?_assign (r : Record) (name other : String) (v : Option Json) :
    (r.assign name v).find? other = if other = name then v else r.find? other := by
  cases v with
  | none => exact SortedMap.find?_erase r name other
  | some v => exact SortedMap.find?_insert r name other v

end Record

end GraphSync
