import GraphSync.Json.Print
import GraphSync.Record

/-! Merging records that share an identity: the first value of each field counts. -/
namespace GraphSync.Merge

/-- The text of a record's identity; a record without one is in no group. -/
def identity? (idField : String) (r : Record) : Option String :=
  (r.present idField).map Json.compact

/-- Sets a field that is absent or null. -/
def fillField (r : Record) (b : String × Json) : Record :=
  if b.2.isNull || (r.present b.1).isSome then r else r.insert b.1 b.2

/-- Fills what a record lacks from another one. -/
def fill (r other : Record) : Record := other.entries.foldl fillField r

/-- Merges a record into the one of its identity, or puts it at the end. -/
def absorb (idField key : String) (r : Record) : List Record → List Record
  | [] => [r]
  | e :: rest =>
    if identity? idField e = some key then fill e r :: rest else e :: absorb idField key r rest

def step (idField : String) (merged : List Record) (r : Record) : List Record :=
  match identity? idField r with
  | some key => absorb idField key r merged
  | none => merged

/-- One record for each identity, in the order in which the identities first appear. -/
def merge (idField : String) (records : List Record) : List Record :=
  records.foldl (step idField) []

end GraphSync.Merge
