import GraphSync.Graph.Basic
import GraphSync.Text.Lowercase

/-! How nodes are found for a record, and when an entity is stale or owned. -/
namespace GraphSync

/-- The lower-case form of a text value. -/
def Json.lowered? : Json → Option (List Char)
  | .str s => some (Lowercase.lower s.toList)
  | _ => none

/-- Whether one text contains another. -/
def containsText (part : List Char) : List Char → Bool
  | [] => part.isEmpty
  | c :: rest => part.isPrefixOf (c :: rest) || containsText part rest

namespace MatchMode

/-- Whether an actual value satisfies a comparison with the expected one. -/
def holds (mode : MatchMode) (actual expected : Json) : Bool :=
  match mode with
  | exact => actual.agrees expected
  | caseInsensitive =>
    match actual.lowered?, expected.lowered? with
    | some a, some e => a == e
    | _, _ => false
  | fuzzyCaseInsensitive =>
    match actual.lowered?, expected.lowered? with
    | some a, some e => containsText e a
    | _, _ => false

/-- A comparison with an absent value never holds. -/
def accepts (mode : MatchMode) (actual expected : Option Json) : Bool :=
  match actual, expected with
  | some a, some e => mode.holds a e
  | _, _ => false

end MatchMode

namespace Json

/-- The elements of a list other than null; any other value stands for itself. -/
def elements : Option Json → List Json
  | none => []
  | some (arr items) => items.filter fun v => !v.isNull
  | some v => [v]

end Json

namespace Record

/-- An entity is stale if it has no mark, or another one than the tag. -/
def isStale (r : Record) (tag : Json) : Bool :=
  match r.present Names.mark with
  | none => true
  | some mark => !tag.isNull && !mark.agrees tag

variable {r : Record} {tag : Int}

/-- A record is stale exactly if no mark of it agrees with the tag. -/
theorem isStale_iff : r.isStale (.int tag) = true ↔
    ∀ mark, r.find? Names.mark = some mark → mark.agrees (.int tag) = false := by
  rw [isStale, present]
  cases hf : r.find? Names.mark with
  | none => simp [Json.present]
  | some mark => cases mark <;> simp [Json.present, Json.int, Json.isNull, Json.agrees]

/-- A record that is marked with a tag is fresh under it, if the tag is a signed word. -/
theorem not_isStale_of_tagged (htag : -Word.signedBound ≤ tag ∧ tag < Word.signedBound)
    (hm : r.find? Names.mark = some (.int tag)) : r.isStale (.int tag) = false := by
  refine Bool.eq_false_iff.2 fun hstale => ?_
  have hagrees : (Json.int tag).agrees (.int tag) = true := (Json.agrees_signed_iff htag htag).2 rfl
  exact Bool.false_ne_true ((isStale_iff.1 hstale _ hm).symm.trans hagrees)

end Record

namespace Matcher

variable (m : Matcher) (record : Record) (params : Parameters)

/-- Whether a node has every property of the matcher, one of them compared with `candidate`. -/
def accepts (candidate : Option Json) (n : Node) : Bool :=
  m.mapping.all fun e =>
    e.2.matchMode.accepts (n.get? e.1)
      (if e.2.isOneToMany then candidate else e.2.resolve record params)

/-- The values that are matched one by one; a single absent one if no property is. -/
def candidates : List (Option Json) :=
  match m.oneToMany? with
  | some e => (Json.elements (e.2.resolve record params)).map some
  | none => [none]

end Matcher

namespace Graph

variable (g : Graph) (record : Record) (params : Parameters)

/-- Keys of the nodes an endpoint accepts, listed anew for every candidate value. -/
def matching (p : Endpoint) : List Nat :=
  (p.matcher.candidates record params).flatMap fun candidate =>
    ((g.labelled p.label).filter fun b => p.matcher.accepts record params candidate b.2).map (·.1)

/-- Whether a node is an owner that the scope means. -/
def isOwner (s : Scope) (key : Nat) : Bool :=
  (g.nodes.find? key).any fun n =>
    n.hasLabel s.owner.label && s.owner.matcher.accepts .empty params none n

/-- Whether an edge of the scope's type comes to the node from such an owner. -/
def isOwned (s : Scope) (key : Nat) : Bool :=
  g.edges.values.any fun e =>
    e.edgeType == s.edgeType && e.finish == key && g.isOwner params s e.start

/-- Without a scope every node is in it. -/
def inScope (s : Option Scope) (key : Nat) : Bool := s.all fun s => g.isOwned params s key

variable {g : Graph} {params : Parameters} {s : Scope} {key : Nat}

theorem isOwner_iff :
    g.isOwner params s key = true ↔ ∃ n, g.nodes.find? key = some n ∧
      n.hasLabel s.owner.label = true ∧ s.owner.matcher.accepts .empty params none n = true := by
  simp only [isOwner, Option.any_eq_true, Bool.and_eq_true]

theorem isOwned_iff :
    g.isOwned params s key = true ↔ ∃ k e, g.edges.find? k = some e ∧
      e.edgeType = s.edgeType ∧ e.finish = key ∧ g.isOwner params s e.start = true := by
  simp only [isOwned, List.any_eq_true, SortedMap.mem_values, Bool.and_eq_true, beq_iff_eq]
  constructor
  · rintro ⟨e, ⟨k, hk⟩, ⟨ht, hf⟩, ho⟩
    exact ⟨k, e, hk, ht, hf, ho⟩
  · rintro ⟨k, e, hk, ht, hf, ho⟩
    exact ⟨e, ⟨k, hk⟩, ⟨ht, hf⟩, ho⟩

end Graph

end GraphSync
