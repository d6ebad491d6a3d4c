import Mathlib.Data.Rel
import Mathlib.SetTheory.Cardinal.Arithmetic
import GraphSync.Proofs.Graph.Rank

/-! Graphs that are equal but for their keys. -/
namespace GraphSync

/-- A one-to-one matching of numbers below a bound extends to a permutation. -/
theorem exists_perm_of_biUnique {R : Nat → Nat → Prop} {bound : Nat} (hR : Relator.BiUnique R)
    (hbound : ∀ k l, R k l → k ≤ bound) : ∃ π : Equiv.Perm Nat, ∀ k l, R k l → π k = l := by
  let dom : Set Nat := {k | ∃ l, R k l}
  have hfinite : dom.Finite :=
    (Set.finite_le_nat bound).subset fun k ⟨l, h⟩ => hbound k l h
  have hsmaller : Cardinal.mk dom < Cardinal.mk Nat :=
    (Cardinal.lt_aleph0_iff_set_finite.2 hfinite).trans_eq Cardinal.mk_nat.symm
  let f : dom ↪ Nat := ⟨fun k => k.2.choose, fun a b hab => by
    have heq : a.2.choose = b.2.choose := hab
    have ha : R a b.2.choose := heq ▸ a.2.choose_spec
    exact Subtype.ext (hR.1 ha b.2.choose_spec)⟩
  obtain ⟨π, hπ⟩ := Cardinal.extend_function_of_lt f hsmaller ⟨Equiv.refl Nat⟩
  refine ⟨π, fun k l h => ?_⟩
  have hk : ∃ l, R k l := ⟨l, h⟩
  exact (hπ ⟨k, hk⟩).trans (hR.2 hk.choose_spec h)

namespace Graph

/-- One graph is the other with its keys renamed. -/
structure Renames (π : Equiv.Perm Nat) (g h : Graph) : Prop where
  nodes : ∀ key, h.nodes.find? (π key) = g.nodes.find? key
  edges : ∀ key, h.edges.find? (π key) =
    (g.edges.find? key).map fun e => { e with start := π e.start, finish := π e.finish }
  indexes : h.indexes = g.indexes

/-- Graphs are alike if they are equal but for their keys. -/
def Alike (g h : Graph) : Prop := ∃ π, Renames π g h

theorem Alike.refl (g : Graph) : g.Alike g :=
  ⟨Equiv.refl Nat, fun _ => rfl, fun _ => Option.map_id'.symm, rfl⟩

/-- Keys of nodes of the same rank, or of edges at the same place with the same properties. -/
inductive Corresponds (g h : Graph) (key other : Nat) : Prop
  | node {n m : Node} (hn : g.nodes.find? key = some n) (hm : h.nodes.find? other = some m)
      (hr : h.rank other = g.rank key)
  | edge {e f : Edge} (he : g.edges.find? key = some e) (hf : h.edges.find? other = some f)
      (hp : h.placeOf f = g.placeOf e) (hr : f.properties = e.properties)

variable {g h : Graph} {key other : Nat} {n m : Node} {e : Edge}

theorem Corresponds.symm (hc : Corresponds g h key other) : Corresponds h g other key := by
  cases hc with
  | node hn hm hr => exact .node hm hn hr.symm
  | edge he hf hp hr => exact .edge hf he hp.symm hr.symm

theorem Corresponds.rightUnique (hg : g.WellFormed) (hh : h.WellFormed) :
    Relator.RightUnique (Corresponds g h) := by
  intro key a b ha hb
  cases ha with
  | node hn hm hr =>
    cases hb with
    | node _ _ hr' => exact eq_of_rank_eq hm (hr.trans hr'.symm)
    | edge he => exact absurd he (hg.apart hn)
  | edge he hf hp =>
    cases hb with
    | node hn => exact absurd he (hg.apart hn)
    | edge he' hf' hp' =>
      cases he.symm.trans he'
      exact eq_of_placeOf_eq hh hf hf' (hp'.trans hp.symm)

theorem exists_node_of_values (hv : h.nodes.values = g.nodes.values)
    (hn : g.nodes.find? key = some n) :
    ∃ other, h.nodes.find? other = some n ∧ h.rank other = g.rank key :=
  exists_of_getElem? (hv ▸ getElem?_rank hn)

theorem exists_edge_of_links (hg : g.WellFormed) (hh : h.WellFormed) (hl : h.links = g.links)
    (he : g.edges.find? key = some e) : ∃ other f, h.edges.find? other = some f ∧
      h.placeOf f = g.placeOf e ∧ f.properties = e.properties := by
  have hsome : h.links (g.placeOf e) = some e.properties := by
    rw [hl]
    exact (mem_links hg).2 ⟨key, e, he, rfl, rfl⟩
  exact (mem_links hh).1 hsome

/-- If a permutation follows a matching under which the entries of two maps are the same, but for a
change, so are the maps. -/
theorem find?_of_matching {α : Type} {m m' : SortedMap Nat α} {R : Nat → Nat → Prop}
    {π : Equiv.Perm Nat} {f : α → α} (hπ : ∀ k l, R k l → π k = l)
    (hleft : ∀ k a, m.find? k = some a → ∃ l, R k l ∧ m'.find? l = some (f a))
    (hright : ∀ l b, m'.find? l = some b → ∃ k a, R k l ∧ m.find? k = some a) (key : Nat) :
    m'.find? (π key) = (m.find? key).map f := by
  cases ha : m.find? key with
  | some a =>
    obtain ⟨l, hl, hb⟩ := hleft key a ha
    rw [hπ key l hl, hb]
    rfl
  | none =>
    refine Option.eq_none_iff_forall_ne_some.2 fun b hb => ?_
    obtain ⟨k, a, hk, ha'⟩ := hright (π key) b hb
    have hsame := π.injective (hπ k (π key) hk)
    rw [hsame, ha] at ha'
    cases ha'

/-- A one-to-one matching of keys, under which every node and every edge of either graph has one of
the other that is the same, makes graphs alike. -/
theorem alike_of_biUnique {R : Nat → Nat → Prop} {bound : Nat} (hR : Relator.BiUnique R)
    (hbound : ∀ k l, R k l → k ≤ bound)
    (hnode : ∀ k n, g.nodes.find? k = some n → ∃ l, R k l ∧ h.nodes.find? l = some n)
    (hnode' : ∀ l n, h.nodes.find? l = some n → ∃ k n, R k l ∧ g.nodes.find? k = some n)
    (hedge : ∀ k e, g.edges.find? k = some e → ∃ l start finish, R k l ∧ R e.start start ∧
      R e.finish finish ∧ h.edges.find? l = some { e with start := start, finish := finish })
    (hedge' : ∀ l f, h.edges.find? l = some f → ∃ k e, R k l ∧ g.edges.find? k = some e)
    (hi : h.indexes = g.indexes) : g.Alike h := by
  obtain ⟨π, hπ⟩ := exists_perm_of_biUnique hR hbound
  refine ⟨π, fun key => ?_, find?_of_matching hπ (fun k e he => ?_) hedge', hi⟩
  · rw [find?_of_matching hπ hnode hnode', Option.map_id']
  · obtain ⟨l, start, finish, hl, hs, hf, he'⟩ := hedge k e he
    exact ⟨l, hl, by rw [he', hπ _ _ hs, hπ _ _ hf]⟩

/-- Well-formed graphs with the same nodes by rank and the same edges by place are alike. -/
theorem alike_of_links (hg : g.WellFormed) (hh : h.WellFormed)
    (hv : h.nodes.values = g.nodes.values) (hl : h.links = g.links)
    (hi : h.indexes = g.indexes) : g.Alike h := by
  have hunique : Relator.BiUnique (Corresponds g h) :=
    ⟨fun a b c ha hb => Corresponds.rightUnique hh hg ha.symm hb.symm,
      Corresponds.rightUnique hg hh⟩
  have hbound : ∀ k l, Corresponds g h k l → k ≤ g.lastKey := by
    intro k l hc
    cases hc with
    | node hn _ => exact hg.node_le hn
    | edge he _ => exact hg.edge_le he
  refine alike_of_biUnique hunique hbound (fun key n hn => ?_) (fun other n hm => ?_)
    (fun key e he => ?_) (fun other f hf => ?_) hi
  · obtain ⟨other, hm, hr⟩ := exists_node_of_values hv hn
    exact ⟨other, .node hn hm hr, hm⟩
  · obtain ⟨key, hn, hr⟩ := exists_node_of_values hv.symm hm
    exact ⟨key, n, .node hn hm hr.symm, hn⟩
  · obtain ⟨other, f, hf, hp, hr⟩ := exists_edge_of_links hg hh hl he
    have hplace := hp
    simp only [placeOf, Prod.mk.injEq] at hplace
    obtain ⟨_, hs⟩ := hg.start he
    obtain ⟨_, hs'⟩ := hh.start hf
    obtain ⟨_, ht⟩ := hg.finish he
    obtain ⟨_, ht'⟩ := hh.finish hf
    refine ⟨other, f.start, f.finish, .edge he hf hp hr, .node hs hs' hplace.2.1,
      .node ht ht' hplace.2.2, ?_⟩
    rw [hf, ← hplace.1, ← hr]
  · obtain ⟨key, e, he, hp, hr⟩ := exists_edge_of_links hh hg hl.symm hf
    exact ⟨key, e, .edge he hf hp.symm hr.symm, he⟩

end Graph

end GraphSync
