import Mathlib.Algebra.Order.BigOperators.Group.List
import Mathlib.Algebra.Order.Ring.Nat
import GraphSync.Proofs.Load.Touches

/-! The rows that records find: how many they are, and which further nodes leave them alone. -/
namespace GraphSync.Graph

variable {g h : Graph} {now : Int} {s : NodeSchema} {u : NodeUpsert} {params : Parameters}
  {records xs ys : List Record} {record : Record} {label : String} {id : Json}

/-- A record finds as many rows in graphs with the same nodes. -/
theorem length_edgeRows_congr (hv : h.nodes.values = g.nodes.values) (u : EdgeUpsert)
    (record : Record) :
    (h.edgeRows u params record).length = (g.edgeRows u params record).length := by
  have hlen := congrArg List.length (rank_edgeRows hv u params record)
  simpa using hlen

/-- Values below others add up to the same only if they are the same. -/
theorem eq_of_total_eq {α : Type} {as : List α} {f f' : α → Nat} (hle : ∀ a ∈ as, f a ≤ f' a) :
    total (as.map f) ≤ total (as.map f') ∧
      (total (as.map f) = total (as.map f') → ∀ a ∈ as, f a = f' a) := by
  refine ⟨List.sum_le_sum hle, fun hsum a ha => ?_⟩
  by_contra hne
  have hlt : total (as.map f) < total (as.map f') :=
    List.sum_lt_sum f f' hle ⟨a, ha, Nat.lt_of_le_of_ne (hle a ha) hne⟩
  exact Nat.ne_of_lt hlt hsum

theorem rowCounts_eq : g.rowCounts s params records = s.allEdges.map fun e =>
    total (records.map fun r => (g.edgeRows (s.edgeUpsert e) params r).length) := by
  simp only [rowCounts, rowsOf, List.map_map]
  rfl

theorem rowCounts_congr
    (hlen : ∀ r ∈ records, ∀ e ∈ s.allEdges, (h.edgeRows (s.edgeUpsert e) params r).length =
      (g.edgeRows (s.edgeUpsert e) params r).length) :
    h.rowCounts s params records = g.rowCounts s params records := by
  rw [rowCounts_eq, rowCounts_eq]
  refine List.map_congr_left fun e he => congrArg total ?_
  exact List.map_congr_left fun r hr => hlen r hr e he

theorem total_rowCounts_append : total (g.rowCounts s params (xs ++ ys)) =
    total (g.rowCounts s params xs) + total (g.rowCounts s params ys) := by
  simp only [rowCounts_eq, List.map_append, List.sum_append, List.sum_map_add]

theorem total_rowCounts_nil : total (g.rowCounts s params []) = 0 := by
  have happend : total (g.rowCounts s params ([] ++ [])) = _ := total_rowCounts_append
  rw [List.append_nil] at happend
  omega

/-- Rows that are at least as many in another graph add up to the same only if they are as many. -/
theorem eq_of_total_rowCounts_eq
    (hle : ∀ r ∈ records, ∀ e ∈ s.allEdges, (h.edgeRows (s.edgeUpsert e) params r).length ≤
      (g.edgeRows (s.edgeUpsert e) params r).length) :
    total (h.rowCounts s params records) ≤ total (g.rowCounts s params records) ∧
      (total (h.rowCounts s params records) = total (g.rowCounts s params records) →
        ∀ r ∈ records, ∀ e ∈ s.allEdges, (h.edgeRows (s.edgeUpsert e) params r).length =
          (g.edgeRows (s.edgeUpsert e) params r).length) := by
  rw [rowCounts_eq, rowCounts_eq]
  have hrows := fun e he => eq_of_total_eq fun r hr => hle r hr e he
  obtain ⟨htotal, heq⟩ := eq_of_total_eq fun e he => (hrows e he).1
  refine ⟨htotal, fun hsum r hr e he => ?_⟩
  exact (hrows e he).2 (heq hsum e he) r hr

/-- Rows that further nodes leave alone keep their places. -/
theorem touches_putNodes {e : EdgeSchema} (hg : g.WellFormed)
    (hrows : g.edgeRows (s.edgeUpsert e) params record =
      (g.putNodes now s params xs).edgeRows (s.edgeUpsert e) params record) :
    g.touches s params e record = (g.putNodes now s params xs).touches s params e record := by
  have hrank : ∀ row ∈ g.edgeRows (s.edgeUpsert e) params record,
      (g.putNodes now s params xs).rankRow row = g.rankRow row := by
    intro row hrow
    obtain ⟨⟨_, hs⟩, _, ht⟩ := hasEnds_of_mem_edgeRows hrow
    rw [rankRow, rankRow, rank_putNodes hg hs, rank_putNodes hg ht]
  rw [touches, touches, ← hrows, List.map_congr_left hrank]

/-- Nodes of a label that none of the written nodes has are left as they are. -/
theorem labelled_putNode (hg : g.WellFormed) (ha : g.LabelsApart u.label label)
    (hl : label ∉ u.label :: u.extraLabels) :
    (putNode now u params g record).labelled label = g.labelled label := by
  cases hid : u.properties.id.resolve record params with
  | none => rw [putNode, hid]
  | some id =>
    obtain ⟨hne, hextra⟩ := not_or.1 (List.mem_cons.not.1 hl)
    cases hf : g.findNode u.label id with
    | none =>
      have hnew : (u.update params record (u.created now id)).hasLabel label = false := by
        rw [NodeUpsert.hasLabel_update, NodeUpsert.hasLabel_created]
        simp [hne, hextra]
      rw [putNode_of_absent hid hf, labelled, entries_addNode hg, List.filter_append,
        List.filter_singleton, hnew]
      exact List.append_nil _
    | some key =>
      obtain ⟨n, hn, hown, -⟩ := findNode_eq_some_iff.1 hf
      have hold : n.hasLabel label = false := ha key n hn hown
      have hnew : (u.update params record n).hasLabel label = false := by
        rw [NodeUpsert.hasLabel_update, hold, decide_eq_false hextra, Bool.or_false]
      have hsame : (g.setNode key (u.update params record n)).nodes.filter
          (fun _ m => m.hasLabel label) = g.nodes.filter fun _ m => m.hasLabel label := by
        refine SortedMap.find?_ext fun k => ?_
        rw [SortedMap.find?_filter, SortedMap.find?_filter, find?_nodes_setNode]
        split
        · next hk =>
          rw [hk, hn, Option.filter_some, Option.filter_some, hnew, hold]
          simp only [Bool.false_eq_true, if_false]
        · rfl
      rw [putNode_of_found hid hf hn]
      exact congrArg SortedMap.entries hsame

theorem labelled_putNodes (hg : g.WellFormed) (ha : g.LabelsApart s.label label)
    (hl : label ∉ s.labels) :
    (g.putNodes now s params records).labelled label = g.labelled label := by
  induction records generalizing g with
  | nil => rfl
  | cons r rest ih =>
    have hfirst : (putNode now s.upsert params g r).LabelsApart s.label label :=
      ha.putNode (u := s.upsert) hl
    exact (ih hg.putNode hfirst).trans (labelled_putNode (u := s.upsert) hg ha hl)

/-- A node that is created is found by an identity that agrees with its own and finds no other. -/
theorem findNode_putNode_of_agrees {sought : Json}
    (hid : u.properties.id.resolve record params = some id) (hf : g.findNode u.label id = none)
    (hsought : g.findNode u.label sought = none) (hagrees : id.agrees sought = true) :
    (putNode now u params g record).findNode u.label sought = some (g.lastKey + 1) := by
  rw [putNode_of_absent hid hf]
  refine findNode_eq_some_iff.2 ⟨_, by rw [find?_nodes_addNode, if_pos rfl], ?_, ?_, ?_⟩
  · rw [NodeUpsert.hasLabel_update, NodeUpsert.hasLabel_created]
    simp
  · rw [NodeUpsert.identifiedBy_update, Node.identifiedBy, NodeUpsert.get?_id_created]
    exact hagrees
  · intro k m hk hm hl
    rw [find?_nodes_addNode, if_neg (Nat.ne_of_lt hk)] at hm
    exact findNode_eq_none_iff.1 hsought k m hm hl

/-- A node that is created is the one that its identity finds. -/
theorem findNode_putNode_of_absent (hid : u.properties.id.resolve record params = some id)
    (hself : id.agrees id = true) (hf : g.findNode u.label id = none) :
    (putNode now u params g record).findNode u.label id = some (g.lastKey + 1) :=
  findNode_putNode_of_agrees hid hf hf hself

/-- A record finds the node that it picks right after it is written. -/
theorem findNode_putNode_located (hg : g.WellFormed) (hlabel : u.label ∉ u.extraLabels)
    (hid : u.properties.id.resolve record params = some id) (hself : id.agrees id = true) :
    (putNode now u params g record).findNode u.label id =
      some (g.locateNode now u.label id).2 := by
  cases hf : g.findNode u.label id with
  | some key =>
    rw [locateNode_of_found hf]
    exact findNode_putNode hg hlabel hf
  | none =>
    rw [locateNode_of_absent hf]
    exact findNode_putNode_of_absent hid hself hf

/-- Rows to targets that no written node is one of stay the same once the record is written. -/
theorem edgeRows_putNodes {e : EdgeSchema} (hg : g.WellFormed)
    (hself : (s.properties.id.resolve record params).any fun id => id.agrees id)
    (hr : record ∈ records) (ha : g.LabelsApart s.label e.target.label)
    (hl : e.target.label ∉ s.labels) (more : List Record) :
    (g.putNodes now s params records).edgeRows (s.edgeUpsert e) params record =
      (g.putNodes now s params (records ++ more)).edgeRows (s.edgeUpsert e) params record := by
  have hlabel : s.label ∉ s.extraLabels := s.label_not_mem_extraLabels
  obtain ⟨id, hid, hagrees⟩ := (Option.any_eq_true _ _).1 hself
  obtain ⟨front, back, rfl⟩ := List.append_of_mem hr
  have hfront : (g.putNodes now s params front).WellFormed := hg.putNodes
  have hput : (putNode now s.upsert params (g.putNodes now s params front) record).WellFormed :=
    hfront.putNode
  obtain ⟨key, hkey⟩ : ∃ key, (putNode now s.upsert params (g.putNodes now s params front)
      record).findNode s.label id = some key :=
    ⟨_, findNode_putNode_located (u := s.upsert) hfront hlabel hid hagrees⟩
  have hfind : ∀ rest, (g.putNodes now s params (front ++ record :: rest)).findNode s.label id =
      some key := by
    intro rest
    rw [putNodes_append, putNodes, List.foldl_cons]
    exact findNode_foldl_putNode hput hlabel hkey
  have hmore : (g.putNodes now s params (front ++ record :: back ++ more)).findNode s.label id =
      some key := by
    rw [List.append_assoc, List.cons_append]
    exact hfind _
  simp only [edgeRows, NodeSchema.edgeUpsert, hid, Option.bind_some, hfind, hmore, matching,
    labelled_putNodes hg ha hl]

end GraphSync.Graph
