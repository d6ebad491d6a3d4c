import Mathlib.Data.List.Basic
import GraphSync.Proofs.Graph.Write

/-! Bindings of parameters that give references the same values do the same to a graph. -/
namespace GraphSync

variable {params others : Parameters} {record : Record} {now : Int}

theorem Mapping.assignAll_of_resolve {m : Mapping}
    (h : ∀ e ∈ m, e.2.resolve record others = e.2.resolve record params) :
    m.assignAll record others = m.assignAll record params := by
  funext r
  refine List.foldl_ext _ _ _ fun r e he => ?_
  rw [h e he]

theorem NodeUpsert.update_of_resolve {u : NodeUpsert}
    (h : ∀ e ∈ u.properties.assigned, e.2.resolve record others = e.2.resolve record params) :
    u.update others record = u.update params record := by
  funext n
  exact congrArg (Node.mk _) (congrFun (Mapping.assignAll_of_resolve h) n.properties)

namespace Matcher

variable {m : Matcher}

theorem accepts_of_resolve
    (h : ∀ e ∈ m.mapping, e.2.resolve record others = e.2.resolve record params)
    (candidate : Option Json) :
    m.accepts record others candidate = m.accepts record params candidate := by
  funext n
  rw [Bool.eq_iff_iff, accepts, accepts, List.all_eq_true, List.all_eq_true]
  exact forall₂_congr fun e he => by rw [h e he]

theorem candidates_of_resolve
    (h : ∀ e ∈ m.mapping, e.2.resolve record others = e.2.resolve record params) :
    m.candidates record others = m.candidates record params := by
  rw [candidates, candidates]
  cases hmany : m.oneToMany? with
  | none => rfl
  | some e =>
    have he : e ∈ m.mapping := List.mem_of_find?_eq_some hmany
    simp only [h e he]

end Matcher

namespace Graph

variable {g : Graph}

theorem matching_of_resolve {p : Endpoint}
    (h : ∀ e ∈ p.matcher.mapping, e.2.resolve record others = e.2.resolve record params) :
    g.matching record others p = g.matching record params p := by
  simp only [matching, Matcher.candidates_of_resolve h, Matcher.accepts_of_resolve h]

theorem writeNode_of_resolve {u : NodeUpsert}
    (hid : u.properties.id.resolve record others = u.properties.id.resolve record params)
    (h : ∀ e ∈ u.properties.assigned, e.2.resolve record others = e.2.resolve record params) :
    writeNode now u others g record = writeNode now u params g record := by
  simp only [writeNode, hid, Mapping.assignAll_of_resolve h]

theorem writeEdges_of_resolve {e : EdgeSchema} {rows : List (Record × List (Nat × Nat))}
    (h : ∀ b ∈ rows, ∀ entry ∈ e.properties.mapping,
      entry.2.resolve b.1 others = entry.2.resolve b.1 params) :
    g.writeEdges now e others rows = g.writeEdges now e params rows := by
  refine List.foldl_ext _ _ _ fun g b hb => List.foldl_ext _ _ _ fun g row _ => ?_
  rw [writeEdge_eq_touchEdge, writeEdge_eq_touchEdge, Mapping.assignAll_of_resolve (h b hb)]

theorem isOwner_of_resolve {s : Scope}
    (h : ∀ e ∈ s.owner.matcher.mapping, e.2.resolve .empty others = e.2.resolve .empty params) :
    g.isOwner others s = g.isOwner params s := by
  funext key
  simp only [isOwner, Matcher.accepts_of_resolve h]

theorem isOwned_of_resolve {s : Scope}
    (h : ∀ e ∈ s.owner.matcher.mapping, e.2.resolve .empty others = e.2.resolve .empty params) :
    g.isOwned others s = g.isOwned params s := by
  funext key
  simp only [isOwned, isOwner_of_resolve h]

theorem inScope_of_resolve {scope : Option Scope} (h : ∀ s ∈ scope, ∀ e ∈ s.owner.matcher.mapping,
    e.2.resolve .empty others = e.2.resolve .empty params) :
    g.inScope others scope = g.inScope params scope := by
  cases scope with
  | none => rfl
  | some s =>
    funext key
    simp only [inScope, Option.all_some, isOwned_of_resolve (h s rfl)]

end Graph

end GraphSync
