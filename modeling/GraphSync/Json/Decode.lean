import GraphSync.Json.Draft

/-!
Reading drafts as values of a wanted shape. Faults are met in the order of the text, so the first
one decides, whether it is one of the text or one of the shape.
-/
namespace GraphSync

namespace Ending

def check : Ending → Except Fault Unit
  | closed => .ok ()
  | broken _ fault => .error fault

/-- What a reader that wants no more items reports. -/
def checkFull : Ending → Except Fault Unit
  | closed => .ok ()
  | broken true _ => .error .malformed
  | broken false fault => .error fault

end Ending

namespace Draft

mutual

/-- The first fault of a part that nobody asks for. -/
def passedFault : Draft → Option Fault
  | scalar _ passed => passed
  | arr items ending => (itemsFault items).or (endingFault ending)
  | obj fields ending => (fieldsFault fields).or (endingFault ending)

def itemsFault : List Draft → Option Fault
  | [] => none
  | d :: rest => d.passedFault.or (itemsFault rest)

def fieldsFault : List (Except Fault String × Draft) → Option Fault
  | [] => none
  | (_, d) :: rest => d.passedFault.or (fieldsFault rest)

def endingFault : Ending → Option Fault
  | .closed => none
  | .broken _ fault => some fault

end

mutual

/-- The draft as a value nested at most `depth` levels deep; a name's last field counts. -/
def toJson (depth : Nat) : Draft → Except Fault Json
  | scalar value _ => value
  | arr items ending =>
    match depth with
    | 0 => .error .malformed
    | depth + 1 => do
      let values ← itemsToJson depth items
      ending.check
      return .arr values
  | obj fields ending =>
    match depth with
    | 0 => .error .malformed
    | depth + 1 => do
      let values ← fieldsToJson depth fields
      ending.check
      return .ofFields values

def itemsToJson (depth : Nat) : List Draft → Except Fault (List Json)
  | [] => .ok []
  | d :: rest => do
    let v ← d.toJson depth
    let vs ← itemsToJson depth rest
    return v :: vs

def fieldsToJson (depth : Nat) :
    List (Except Fault String × Draft) → Except Fault (List (String × Json))
  | [] => .ok []
  | (key, d) :: rest => do
    let k ← key
    let v ← d.toJson depth
    let vs ← fieldsToJson depth rest
    return (k, v) :: vs

end

/-- How deep values may nest. -/
def maxDepth : Nat := 127

mutual

/-- A faultless draft of a value. -/
def ofJson : Json → Draft
  | .arr items => arr (ofItems items) .closed
  | .obj fields => obj (ofFields fields) .closed
  | v => scalar (.ok v) none

def ofItems : List Json → List Draft
  | [] => []
  | v :: rest => ofJson v :: ofItems rest

def ofFields : List (String × Json) → List (Except Fault String × Draft)
  | [] => []
  | (k, v) :: rest => (.ok k, ofJson v) :: ofFields rest

end

/-- Reads a whole text: the value first, then that nothing follows it. -/
def decodeText {α : Type} (decode : Draft → Except Fault α) (text : String) : Except Fault α := do
  let (draft, trailing) := ofText text
  let value ← decode draft
  match trailing with
  | some fault => .error fault
  | none => .ok value

end Draft

/-- Reads a text as any value. -/
def Json.parse (text : String) : Except Fault Json :=
  Draft.decodeText (Draft.toJson Draft.maxDepth) text

/-- Reading of values of one type. -/
abbrev Decoder (α : Type) := Draft → Except Fault α

namespace Decoder

variable {α σ : Type}

/-- Reads a value that was parsed before. -/
def run (decode : Decoder α) (v : Json) : Except Fault α := decode (.ofJson v)

def scalarOf (select : Json → Option α) : Decoder α
  | .scalar (.ok v) _ => (select v).elim (.error .mismatch) .ok
  | .scalar (.error f) _ => .error f
  | _ => .error .mismatch

def json : Decoder Json := Draft.toJson Draft.maxDepth

def text : Decoder String := scalarOf Json.text?

def flag : Decoder Bool := scalarOf fun
  | .bool b => some b
  | _ => none

/-- A whole number that fits an unsigned 64-bit word. -/
def count : Decoder Nat := scalarOf fun
  | .num n => n.count?
  | _ => none

def nothing : Decoder Unit := scalarOf fun
  | .null => some ()
  | _ => none

/-- Null stands for an absent value. -/
def optional (item : Decoder α) : Decoder (Option α)
  | .scalar (.ok .null) _ => .ok none
  | d => (item d).map some

def list (item : Decoder α) : Decoder (List α)
  | .arr items ending => do
    let values ← items.mapM item
    ending.check
    return values
  | .scalar (.error f) _ => .error f
  | _ => .error .mismatch

/-- A field of a record under construction; an optional one keeps its initial value if absent. -/
structure Field (σ : Type) where
  name : String
  set : Draft → σ → Except Fault σ
  mandatory : Bool

def Field.required (name : String) (decode : Decoder α) (set : α → σ → σ) : Field σ :=
  ⟨name, fun d s => (decode d).map (set · s), true⟩

def Field.defaulted (name : String) (decode : Decoder α) (set : α → σ → σ) : Field σ :=
  ⟨name, fun d s => (decode d).map (set · s), false⟩

/-- Sets named fields; a name counts once, and unknown names are passed over. -/
def setNamed (fields : List (Field σ)) :
    List (Except Fault String × Draft) → List String → σ → Except Fault (List String × σ)
  | [], seen, s => .ok (seen, s)
  | (key, d) :: rest, seen, s => do
    let k ← key
    match fields.find? (·.name == k) with
    | some field =>
      if seen.contains k then .error .mismatch
      else setNamed fields rest (k :: seen) (← field.set d s)
    | none =>
      match d.passedFault with
      | some fault => .error fault
      | none => setNamed fields rest seen s

/-- Sets fields by position; trailing optional ones may be left out. -/
def setListed : List (Field σ) → List Draft → Ending → σ → Except Fault σ
  | [], [], ending, s => do
    ending.checkFull
    return s
  | [], _ :: _, _, _ => .error .malformed
  | field :: fields, [], ending, s => do
    ending.check
    if field.mandatory then .error .mismatch else setListed fields [] ending s
  | field :: fields, d :: rest, ending, s => do setListed fields rest ending (← field.set d s)

/-- A record, written as an object or as the list of its field values. -/
def record (start : σ) (fields : List (Field σ)) : Decoder σ
  | .obj given ending => do
    let (seen, s) ← setNamed fields given [] start
    ending.check
    if fields.all fun field => !field.mandatory || seen.contains field.name then .ok s
    else .error .mismatch
  | .arr items ending => setListed fields items ending start
  | .scalar (.error f) _ => .error f
  | .scalar _ _ => .error .mismatch

/-- A choice by name: the name alone, or an object with the name and what goes with it. -/
def variant (choose : String → Option Draft → Except Fault α) : Decoder α
  | .scalar (.ok (.str name)) _ => choose name none
  | .obj [(.ok name, d)] .closed => choose name (some d)
  | .scalar (.error f) _ => .error f
  | _ => .error .mismatch

/-- A choice that carries nothing. -/
def bare (value : α) : Option Draft → Except Fault α
  | none => .ok value
  | some d => (nothing d).map fun _ => value

/-- A choice among named values. An object may stand for the name if the choice alone is in it:
with null, or with whatever `alone` takes besides. -/
def named (values : List α) (name : α → String) (alone : Draft → Bool) : Decoder α :=
  variant fun given carried =>
    match values.find? (name · == given) with
    | none => .error .mismatch
    | some v => if carried.all alone then bare v none else bare v carried

/-- An object without fields. -/
def isEmptyObject : Draft → Bool
  | .obj [] .closed => true
  | _ => false

/-- A choice that carries a value. -/
def carrying (decode : Decoder α) : Option Draft → Except Fault α
  | none => .error .mismatch
  | some d => decode d

end Decoder

end GraphSync
