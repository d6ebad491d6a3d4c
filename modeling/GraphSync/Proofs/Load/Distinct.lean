import GraphSync.Proofs.Load.Meeting
import GraphSync.Proofs.Load.Owned

/-! Records whose identities are distinct texts: each of them has a node of its own. -/
namespace GraphSync

theorem Node.identifiedBy_str_iff {n : Node} {x : String} :
    n.identifiedBy (.str x) = true ↔ n.get? Names.id = some (.str x) := by
  rw [Node.identifiedBy, Option.any_eq_true]
  simp only [Json.agrees_str_iff, exists_eq_right]

namespace Graph

variable {g h : Graph} {now : Int} {s : NodeSchema} {params : Parameters} {records : List Record}
  {r : Record} {x : String} {key : Nat} {n : Node}

/-- The identities of records are texts, and no two of them are the same. -/
structure DistinctTexts (s : NodeSchema) (params : Parameters) (records : List Record) : Prop where
  distinct : (records.map (s.properties.id.resolve · params)).Nodup
  texts : ∀ r ∈ records, ∃ x, s.properties.id.resolve r params = some (.str x)

/-- Records have texts for identities, other ones than a given text. -/
def OtherTexts (s : NodeSchema) (params : Parameters) (x : String) (records : List Record) : Prop :=
  ∀ r ∈ records, ∃ y, s.properties.id.resolve r params = some (.str y) ∧ y ≠ x

/-- Where a record with a text for identity is written: to the node that the text finds from the
start, or to a new one. -/
structure Placed (now : Int) (s : NodeSchema) (params : Parameters) (g h : Graph) (r : Record)
    (x : String) (key : Nat) (n : Node) : Prop where
  found : h.findNode s.label (.str x) = some key
  node : h.nodes.find? key = some (s.upsert.update params r n)
  identified : n.get? Names.id = some (.str x)
  origin : (g.findNode s.label (.str x) = some key ∧ g.nodes.find? key = some n) ∨
    (g.findNode s.label (.str x) = none ∧ g.nodes.find? key = none ∧
      n = s.upsert.created now (.str x))

/-- Records take no node away. -/
theorem exists_kept_of_putNodes (now : Int) (s : NodeSchema) (params : Parameters)
    (records : List Record) (hn : g.nodes.find? key = some n) :
    ∃ m, (g.putNodes now s params records).nodes.find? key = some m := by
  induction records generalizing g n with
  | nil => exact ⟨n, hn⟩
  | cons r rest ih =>
    obtain ⟨m, hm⟩ := exists_find?_putNode (u := s.upsert) hn
    exact ih hm

/-- Different texts find different nodes. -/
theorem not_meets_of_ne {label y : String} (hne : y ≠ x) : ¬ g.Meets label (.str y) (.str x) := by
  rintro ⟨hsame, hagrees⟩
  cases hf : g.findNode label (.str y) with
  | none => exact hne (Json.str.inj (Json.agrees_str_iff.1 (hagrees hf)))
  | some key =>
    obtain ⟨n, hn, -, hy, -⟩ := findNode_eq_some_iff.1 hf
    obtain ⟨m, hm, -, hx, -⟩ := findNode_eq_some_iff.1 (hsame.symm.trans hf)
    cases hn.symm.trans hm
    have htexts := (Node.identifiedBy_str_iff.1 hy).symm.trans (Node.identifiedBy_str_iff.1 hx)
    exact hne (Json.str.inj (Option.some.inj htexts))

/-- A text finds what it found before records with other texts were written. -/
theorem findNode_putNodes_of_otherTexts (hg : g.WellFormed)
    (hr : OtherTexts s params x records) :
    (g.putNodes now s params records).findNode s.label (.str x) = g.findNode s.label (.str x) := by
  induction records generalizing g with
  | nil => rfl
  | cons r rest ih =>
    obtain ⟨⟨y, hy, hne⟩, hrest⟩ := List.forall_mem_cons.1 hr
    have hlabel : s.label ∉ s.extraLabels := s.label_not_mem_extraLabels
    exact (ih hg.putNode hrest).trans
      (findNode_putNode_of_not_meets (u := s.upsert) hg hlabel hy (not_meets_of_ne hne))

/-- The node of a text is left as it is by records with other texts. -/
theorem find?_putNodes_of_otherTexts (hg : g.WellFormed) (hr : OtherTexts s params x records)
    (hn : g.nodes.find? key = some n) (hid : n.get? Names.id = some (.str x)) :
    (g.putNodes now s params records).nodes.find? key = some n := by
  refine find?_putNodes_of_apart hg hn fun _ r hmem id hresolve => ?_
  obtain ⟨y, hy, hne⟩ := hr r hmem
  cases hresolve.symm.trans hy
  refine Bool.eq_false_iff.2 fun hsame => hne ?_
  exact Json.str.inj (Option.some.inj ((Node.identifiedBy_str_iff.1 hsame).symm.trans hid))

theorem placed_putNode (now : Int) (hg : g.WellFormed)
    (hx : s.properties.id.resolve r params = some (.str x)) :
    ∃ key n, Placed now s params g (putNode now s.upsert params g r) r x key n := by
  have hlabel : s.label ∉ s.extraLabels := s.label_not_mem_extraLabels
  cases hf : g.findNode s.label (.str x) with
  | some key =>
    obtain ⟨n, hn, -, hid, -⟩ := findNode_eq_some_iff.1 hf
    refine ⟨key, n, findNode_putNode (u := s.upsert) hg hlabel hf, ?_,
      Node.identifiedBy_str_iff.1 hid, .inl ⟨hf, hn⟩⟩
    rw [putNode_of_found (u := s.upsert) hx hf hn, find?_nodes_setNode, if_pos rfl]
  | none =>
    have hself : (Json.str x).agrees (.str x) = true := Json.agrees_str_iff.2 rfl
    refine ⟨g.lastKey + 1, s.upsert.created now (.str x),
      findNode_putNode_of_absent (u := s.upsert) hx hself hf, ?_, NodeUpsert.get?_id_created,
      .inr ⟨hf, hg.find?_node_next, rfl⟩⟩
    rw [putNode_of_absent (u := s.upsert) hx hf, find?_nodes_addNode, if_pos rfl]

/-- A record stays where it is written while records with other texts are. -/
theorem Placed.after (hh : h.WellFormed) (hr : OtherTexts s params x records)
    (hp : Placed now s params g h r x key n) :
    Placed now s params g (h.putNodes now s params records) r x key n where
  found := (findNode_putNodes_of_otherTexts hh hr).trans hp.found
  node := find?_putNodes_of_otherTexts hh hr hp.node
    (NodeUpsert.get?_id_update.trans hp.identified)
  identified := hp.identified
  origin := hp.origin

/-- It makes no difference to where a record is written that records with other texts were. -/
theorem Placed.before (hg : g.WellFormed) (hr : OtherTexts s params x records)
    (hp : Placed now s params (g.putNodes now s params records) h r x key n) :
    Placed now s params g h r x key n where
  found := hp.found
  node := hp.node
  identified := hp.identified
  origin := by
    have hfind : (g.putNodes now s params records).findNode s.label (.str x) =
        g.findNode s.label (.str x) := findNode_putNodes_of_otherTexts hg hr
    rcases hp.origin with ⟨hf, hn⟩ | ⟨hf, hnone, hcreated⟩
    · rw [hfind] at hf
      obtain ⟨m, hm, -, hid, -⟩ := findNode_eq_some_iff.1 hf
      have hkept : (g.putNodes now s params records).nodes.find? key = some m :=
        find?_putNodes_of_otherTexts hg hr hm (Node.identifiedBy_str_iff.1 hid)
      cases hkept.symm.trans hn
      exact .inl ⟨hf, hm⟩
    · refine .inr ⟨hfind.symm.trans hf, ?_, hcreated⟩
      refine Option.eq_none_iff_forall_ne_some.2 fun m hm => ?_
      obtain ⟨o, ho⟩ := exists_kept_of_putNodes now s params records hm
      cases ho.symm.trans hnone

theorem DistinctTexts.others {before after : List Record}
    (hd : DistinctTexts s params (before ++ r :: after))
    (hx : s.properties.id.resolve r params = some (.str x)) :
    OtherTexts s params x before ∧ OtherTexts s params x after := by
  have hdistinct := hd.distinct
  rw [List.map_append, List.map_cons, List.nodup_middle, List.nodup_cons,
    ← List.map_append] at hdistinct
  have hother : ∀ r' ∈ before ++ after, s.properties.id.resolve r' params ≠ some (.str x) := by
    intro r' hr' hsame
    exact hdistinct.1 (List.mem_map.2 ⟨r', hr', hsame.trans hx.symm⟩)
  constructor
  · intro r' hr'
    obtain ⟨y, hy⟩ := hd.texts r' (List.mem_append_left _ hr')
    refine ⟨y, hy, ?_⟩
    rintro rfl
    exact hother r' (List.mem_append_left _ hr') hy
  · intro r' hr'
    obtain ⟨y, hy⟩ := hd.texts r' (List.mem_append_right _ (List.mem_cons_of_mem _ hr'))
    refine ⟨y, hy, ?_⟩
    rintro rfl
    exact hother r' (List.mem_append_right _ hr') hy

/-- A record whose text no other record has is written to the node that its text finds from the
start, or to a new one, whatever comes before and after it. -/
theorem exists_placed (now : Int) (hg : g.WellFormed) (hd : DistinctTexts s params records)
    (hr : r ∈ records) (hx : s.properties.id.resolve r params = some (.str x)) :
    ∃ key n, Placed now s params g (g.putNodes now s params records) r x key n := by
  obtain ⟨before, after, rfl⟩ := List.append_of_mem hr
  obtain ⟨hbefore, hafter⟩ := hd.others hx
  have hmid : (g.putNodes now s params before).WellFormed := hg.putNodes
  have hput : (putNode now s.upsert params (g.putNodes now s params before) r).WellFormed :=
    hmid.putNode
  obtain ⟨key, n, hp⟩ := placed_putNode now hmid hx
  have hsplit : g.putNodes now s params (before ++ r :: after) =
      (putNode now s.upsert params (g.putNodes now s params before) r).putNodes now s params
        after := putNodes_append
  rw [hsplit]
  exact ⟨key, n, (hp.before hg hbefore).after hput hafter⟩

/-- A record whose text no other record has ends up as it was written. -/
theorem exists_find?_putNodes (now : Int) (hg : g.WellFormed)
    (hd : DistinctTexts s params records) (hr : r ∈ records)
    (hx : s.properties.id.resolve r params = some (.str x)) :
    ∃ key n, (g.putNodes now s params records).findNode s.label (.str x) = some key ∧
      (g.putNodes now s params records).nodes.find? key = some (s.upsert.update params r n) := by
  obtain ⟨key, n, hp⟩ := exists_placed now hg hd hr hx
  exact ⟨key, n, hp.found, hp.node⟩

/-- A node that no record finds in the end is as it was. -/
theorem find?_putNodes_of_not_found (hg : g.WellFormed) (hd : DistinctTexts s params records)
    (hnone : ∀ r ∈ records, (g.putNodes now s params records).nodeOf s params r ≠ some key) :
    (g.putNodes now s params records).nodes.find? key = g.nodes.find? key := by
  have hself : ∀ r ∈ records, ∃ id, s.properties.id.resolve r params = some id ∧
      id.agrees id = true := by
    intro r hr
    obtain ⟨x, hx⟩ := hd.texts r hr
    exact ⟨_, hx, Json.agrees_str_iff.2 rfl⟩
  have hid : ∀ r ∈ records, (s.properties.id.resolve r params).isSome = true := by
    intro r hr
    obtain ⟨id, hid, -⟩ := hself r hr
    exact Option.isSome_iff_exists.2 ⟨id, hid⟩
  refine find?_of_not_mem_pickNodes (u := s.upsert) hid fun hk => ?_
  obtain ⟨r, hr, hfound⟩ := nodeOf_of_mem_pickNodes hg hself hk
  exact hnone r hr hfound

/-- Nodes that no record's identity tells, under the label of the loaded ones, are the same as
before. -/
theorem find?_putNodes_iff_of_apart (now : Int) (hg : g.WellFormed)
    (hd : DistinctTexts s params records)
    (ha : n.hasLabel s.label = true → ∀ r ∈ records, ∀ id,
      s.properties.id.resolve r params = some id → n.identifiedBy id = false) :
    (g.putNodes now s params records).nodes.find? key = some n ↔ g.nodes.find? key = some n := by
  refine ⟨fun hn => ?_, fun hn => find?_putNodes_of_apart hg hn ha⟩
  refine (find?_putNodes_of_not_found hg hd fun r hr hfound => ?_).symm.trans hn
  obtain ⟨id, hid, hfind⟩ := nodeOf_eq_some_iff.1 hfound
  obtain ⟨m, hm, hl, hmid, -⟩ := findNode_eq_some_iff.1 hfind
  cases hn.symm.trans hm
  exact absurd hmid (Bool.eq_false_iff.1 (ha hl r hr id hid))

end Graph

namespace Load

variable {g h : Graph} {now tag : Int} {s : NodeSchema} {base params : Parameters}
  {records : List Record} {cs : List (List Record)} {config : LoaderConfig}
  {summary : LoadSummary}

/-- Without edges, batches write the nodes of their records and nothing else. -/
theorem batches_eq_putNodes (hs : s.ReadsNoBatch) (he : s.allEdges = []) :
    batches now s base g cs = g.putNodes now s base cs.flatten := by
  have hbatch : ∀ (g : Graph) c, g.loadBatch now s base c = g.putNodes now s base c := by
    intro g c
    rw [Graph.loadBatch, Graph.putEdges, he, List.foldl_nil]
  induction cs generalizing g with
  | nil => rfl
  | cons c cs ih =>
    rw [batches_cons hs, hbatch, ih, List.flatten_cons, Graph.putNodes_append]

/-- What a load of records with distinct texts for identities leaves, if the schema has no edges. -/
theorem nodes_of_distinctTexts (hs : s.ReadsNoBatch) (he : s.allEdges = []) (hg : g.WellFormed)
    (hd : Graph.DistinctTexts s (baseParameters params tag) (kept s records params))
    (hload : Load.nodes config now s records params tag g = (.ok summary, h)) :
    (∀ r ∈ kept s records params, ∀ x,
      s.properties.id.resolve r (baseParameters params tag) = some (.str x) →
        ∃ key n, h.findNode s.label (.str x) = some key ∧
          h.nodes.find? key = some (s.upsert.update (baseParameters params tag) r n)) ∧
    (∀ key n, (n.hasLabel s.label = true → ∀ r ∈ kept s records params, ∀ id,
      s.properties.id.resolve r (baseParameters params tag) = some id →
        n.identifiedBy id = false) →
          (h.nodes.find? key = some n ↔ g.nodes.find? key = some n)) := by
  obtain ⟨-, rfl⟩ := batches_of_nodes hload
  rw [batches_eq_putNodes hs he, flatten_chunks]
  have hstart : (indexed s g).WellFormed := wellFormed_indexed hg
  exact ⟨fun r hr x hx => Graph.exists_find?_putNodes now hstart hd hr hx,
    fun key n ha => Graph.find?_putNodes_iff_of_apart now hstart hd ha⟩

end Load

end GraphSync
