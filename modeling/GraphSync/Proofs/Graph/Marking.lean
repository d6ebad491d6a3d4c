import GraphSync.Proofs.Graph.Between
import GraphSync.Proofs.Load.Again

/-! Links by property: each pair of nodes that agree gets one edge with the mark of the run, all
other edges are left alone, and the same links once more change nothing. -/
namespace GraphSync

namespace Graph

/-- The joints of a link: one for each pair of nodes whose properties agree. -/
def joints (g : Graph) (l : PropertyLink) : List Joint := (g.linkedPairs l).map (l.edgeType, ·)

/-- Marks the edges at joints one by one, and creates those that are not there. -/
def markJoints (now : Int) (tag : Json) (g : Graph) (ps : List Joint) : Graph :=
  ps.foldl (fun h p => writeLink now p.1 tag h p.2) g

variable {g h : Graph} {now later : Int} {tag : Json} {params : Parameters} {l : PropertyLink}
  {p q : Joint} {ps qs : List Joint} {key : Nat} {e : Edge}

theorem mem_joints : p ∈ g.joints l ↔ p.1 = l.edgeType ∧ p.2 ∈ g.linkedPairs l := by
  rw [joints, List.mem_map]
  constructor
  · rintro ⟨pair, hpair, rfl⟩
    exact ⟨rfl, hpair⟩
  · rintro ⟨htype, hpair⟩
    exact ⟨p.2, hpair, by rw [← htype]⟩

/-- Two nodes are paired if they have the labels of the link and their properties agree. -/
theorem mem_linkedPairs {a b : Nat} : (a, b) ∈ g.linkedPairs l ↔
    ∃ n m v, g.nodes.find? a = some n ∧ n.hasLabel l.fromLabel = true ∧
      n.properties.present l.fromProperty = some v ∧ g.nodes.find? b = some m ∧
      m.hasLabel l.toLabel = true ∧
      l.matchMode.accepts (m.get? l.toProperty) (some v) = true := by
  simp only [linkedPairs, List.mem_flatMap, Prod.exists, mem_labelled]
  constructor
  · rintro ⟨k, n, ⟨hn, hl⟩, hmem⟩
    split at hmem
    · cases hmem
    · next v hv =>
      simp only [List.mem_map, List.mem_filter, Prod.exists, mem_labelled] at hmem
      obtain ⟨j, m, ⟨⟨hm, hlm⟩, haccepts⟩, hpair⟩ := hmem
      cases hpair
      exact ⟨n, m, v, hn, hl, hv, hm, hlm, haccepts⟩
  · rintro ⟨n, m, v, hn, hl, hv, hm, hlm, haccepts⟩
    refine ⟨a, n, ⟨hn, hl⟩, ?_⟩
    simp only [hv, List.mem_map, List.mem_filter, Prod.exists, mem_labelled]
    exact ⟨b, m, ⟨⟨hm, hlm⟩, haccepts⟩, rfl⟩

theorem joints_congr (hn : h.nodes = g.nodes) (l : PropertyLink) : h.joints l = g.joints l := by
  simp only [joints, linkedPairs, labelled_congr hn]

theorem hasEnds_of_mem_joints (hp : p ∈ g.joints l) : g.HasEnds p.2 :=
  hasEnds_of_mem_linkedPairs (mem_joints.1 hp).2

/-- A link statement marks the edges at its joints and counts these. -/
theorem linkByProperty_eq (htag : params.find? Names.sweepTag = some tag) :
    g.linkByProperty now l params =
      .ok (g.markJoints now tag (g.joints l), (g.joints l).length) := by
  simp only [linkByProperty, Parameters.require, htag, markJoints, joints, List.foldl_map,
    List.length_map]
  rfl

theorem writeLink_eq_touchEdge : writeLink now p.1 tag g p.2 =
    g.touchEdge now p.1 p.2.1 p.2.2 (·.insert Names.mark tag) := rfl

theorem markJoints_cons : g.markJoints now tag (p :: ps) =
    (writeLink now p.1 tag g p.2).markJoints now tag ps := rfl

theorem markJoints_append :
    g.markJoints now tag (ps ++ qs) = (g.markJoints now tag ps).markJoints now tag qs :=
  List.foldl_append

theorem nodes_markJoints : (g.markJoints now tag ps).nodes = g.nodes :=
  nodes_foldl fun _ _ => nodes_touchEdge

theorem indexes_markJoints : (g.markJoints now tag ps).indexes = g.indexes := by
  induction ps generalizing g with
  | nil => rfl
  | cons p ps ih => exact ih.trans indexes_touchEdge

/-- Marks written at joints, one by one. -/
def jointMarks (tag : Json) (g : Graph) : Upserting Graph Joint Edge where
  find h p := h.findEdge p.1 p.2.1 p.2.2
  item h := h.edges.find?
  rest h := { h with edges := .empty }
  update _ e := { e with properties := e.properties.insert Names.mark tag }
  put now h p := writeLink now p.1 tag h p.2
  Valid h := h.WellFormed ∧ h.nodes = g.nodes
  Fits p := g.HasEnds p.2
  valid_put _ _ _ hh hp := ⟨hh.1.touchEdge ((hasEnds_congr hh.2).2 hp), nodes_touchEdge.trans hh.2⟩
  ext := eq_of_edges
  exists_item hf := by
    obtain ⟨e, he, -⟩ := findEdge_eq_some hf
    exact ⟨e, he⟩
  found _ _ _ _ _ hf he := touchEdge_found hf he
  absent _ _ _ hh _ hf := touchEdge_absent hh.1 hf
  stable _ _ _ _ _ hh _ hf := findEdge_touchEdge hh.1 hf
  update_twice _ e := by simp only [SortedMap.insert_insert]
  update_covers _ _ e := by simp only [SortedMap.insert_insert]

section Marks

variable (hg : g.WellFormed) (hps : ∀ p ∈ ps, g.HasEnds p.2)

include hg hps

theorem WellFormed.markJoints : (g.markJoints now tag ps).WellFormed := by
  induction ps generalizing g with
  | nil => exact hg
  | cons p ps ih =>
    obtain ⟨hp, hrest⟩ := List.forall_mem_cons.1 hps
    exact ih (hg.touchEdge hp) fun q hq => (hasEnds_congr nodes_touchEdge).2 (hrest q hq)

/-- Edges that are marked are left as they are by marking them again, at any time. -/
theorem markJoints_markJoints : (g.markJoints now tag ps).markJoints later tag ps =
    g.markJoints now tag ps :=
  have habsorbs : (jointMarks tag g).Absorbs ps (g.markJoints now tag ps) :=
    Upserting.absorbs_foldl now ⟨hg, rfl⟩ hps
  habsorbs.foldl_eq later ⟨hg.markJoints hps, nodes_markJoints⟩ hps

/-- The edge at each joint is marked, and no other one is touched. -/
theorem between_markJoints : (g.markJoints now tag ps).between q = if q ∈ ps then
    some (((g.between q).getD (createdEdge now)).insert Names.mark tag) else g.between q := by
  induction ps generalizing g with
  | nil => rfl
  | cons p ps ih =>
    obtain ⟨hp, hrest⟩ := List.forall_mem_cons.1 hps
    rw [markJoints_cons, writeLink_eq_touchEdge,
      ih (hg.touchEdge hp) fun v hv => (hasEnds_congr nodes_touchEdge).2 (hrest v hv),
      between_touchEdge hg hp]
    by_cases hq : q = p
    · have hmem : q ∈ p :: ps := List.mem_cons.2 (.inl hq)
      rw [if_pos hq, if_pos hmem, Option.getD_some, SortedMap.insert_insert, ite_self]
    · simp only [List.mem_cons, hq, if_false, false_or]

theorem find?_markJoints_of_joint_not_mem (hne : e.joint ∉ ps) :
    (g.markJoints now tag ps).edges.find? key = some e ↔ g.edges.find? key = some e := by
  induction ps generalizing g with
  | nil => rfl
  | cons p ps ih =>
    obtain ⟨hp, hrest⟩ := List.forall_mem_cons.1 hps
    obtain ⟨hfirst, hothers⟩ := not_or.1 (List.mem_cons.not.1 hne)
    rw [markJoints_cons, writeLink_eq_touchEdge,
      ih (hg.touchEdge hp) (fun v hv => (hasEnds_congr nodes_touchEdge).2 (hrest v hv)) hothers,
      find?_touchEdge_of_joint_ne hg hfirst]

theorem mark_of_markJoints (he : (g.markJoints now tag ps).edges.find? key = some e)
    (hmem : e.joint ∈ ps) : e.properties.find? Names.mark = some tag := by
  have hbetween := between_of_find? (hg.markJoints hps) he
  rw [between_markJoints hg hps, if_pos hmem] at hbetween
  rw [← Option.some.inj hbetween, SortedMap.find?_insert, if_pos rfl]

end Marks

end Graph

end GraphSync
