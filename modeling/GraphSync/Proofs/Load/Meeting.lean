import GraphSync.Proofs.Load.Rows

/-! When two records of a load are written to one node: their identities find the same node, or they
find none and agree with each other. Records of which no two meet are written to a node each. -/
namespace GraphSync

/-- The identities that records give, one after the other. -/
def NodeUpsert.identities (u : NodeUpsert) (params : Parameters) (records : List Record) :
    List Json :=
  records.filterMap fun r => u.properties.id.resolve r params

namespace Graph

/-- Two identities find the same node of a label, or find none and agree, so that the second finds
what is created for the first. -/
def Meets (g : Graph) (label : String) (a b : Json) : Prop :=
  g.findNode label a = g.findNode label b ∧ (g.findNode label a = none → a.agrees b = true)

instance (g : Graph) (label : String) : DecidableRel (g.Meets label) := fun a b =>
  inferInstanceAs (Decidable (g.findNode label a = g.findNode label b ∧
    (g.findNode label a = none → a.agrees b = true)))

/-- No two of the identities of records meet, an earlier one and a later one. -/
def Apart (g : Graph) (label : String) (ids : List Json) : Prop :=
  ids.Pairwise fun a b => ¬ g.Meets label a b

instance (g : Graph) (label : String) (ids : List Json) : Decidable (g.Apart label ids) :=
  inferInstanceAs (Decidable (ids.Pairwise fun a b => ¬ g.Meets label a b))

variable {g h : Graph} {now : Int} {s : NodeSchema} {u : NodeUpsert} {params : Parameters}
  {records batch : List Record} {record : Record} {label : String} {a b : Json} {key : Nat}

theorem exists_of_findNode (hf : g.findNode label a = some key) :
    ∃ n, g.nodes.find? key = some n := by
  obtain ⟨n, hn, -⟩ := findNode_eq_some_iff.1 hf
  exact ⟨n, hn⟩

theorem meets_of_found (hf : g.findNode label a = some key) :
    g.Meets label a b ↔ g.findNode label b = some key :=
  ⟨fun h => h.1.symm.trans hf, fun hb => ⟨hf.trans hb.symm, fun hn => nomatch hf.symm.trans hn⟩⟩

theorem meets_of_absent (hf : g.findNode label a = none) :
    g.Meets label a b ↔ g.findNode label b = none ∧ a.agrees b = true :=
  ⟨fun h => ⟨h.1.symm.trans hf, h.2 hf⟩, fun ⟨hb, hagrees⟩ => ⟨hf.trans hb.symm, fun _ => hagrees⟩⟩

/-- Writing a record changes neither the label nor the identity of a node that was there. -/
theorem node_of_putNode (hg : g.WellFormed) (hlabel : u.label ∉ u.extraLabels) {n m : Node}
    (hn : g.nodes.find? key = some n)
    (hm : (putNode now u params g record).nodes.find? key = some m) :
    m.hasLabel u.label = n.hasLabel u.label ∧ ∀ id, m.identifiedBy id = n.identifiedBy id := by
  cases hid : u.properties.id.resolve record params with
  | none =>
    rw [putNode, hid] at hm
    cases hn.symm.trans hm
    exact ⟨rfl, fun _ => rfl⟩
  | some id =>
    cases hf : g.findNode u.label id with
    | none =>
      rw [putNode_of_absent hid hf, find?_nodes_addNode, if_neg (hg.node_ne_next hn)] at hm
      cases hn.symm.trans hm
      exact ⟨rfl, fun _ => rfl⟩
    | some place =>
      obtain ⟨o, ho, -⟩ := findNode_eq_some_iff.1 hf
      rw [putNode_of_found hid hf ho, find?_nodes_setNode] at hm
      split at hm
      · next hk =>
        cases hm
        cases (hk ▸ hn).symm.trans ho
        refine ⟨?_, fun _ => NodeUpsert.identifiedBy_update⟩
        rw [NodeUpsert.hasLabel_update, decide_eq_false hlabel, Bool.or_false]
      · cases hn.symm.trans hm
        exact ⟨rfl, fun _ => rfl⟩

/-- A node that was there is found by the same identities once a record is written. -/
theorem findNode_putNode_iff (hg : g.WellFormed) (hlabel : u.label ∉ u.extraLabels)
    (hk : ∃ n, g.nodes.find? key = some n) :
    (putNode now u params g record).findNode u.label b = some key ↔
      g.findNode u.label b = some key := by
  refine ⟨fun hf => ?_, findNode_putNode hg hlabel⟩
  cases hbefore : g.findNode u.label b with
  | some place =>
    exact (findNode_putNode hg hlabel hbefore).symm.trans hf
  | none =>
    obtain ⟨n, hn⟩ := hk
    obtain ⟨m, hm, hl, hi, -⟩ := findNode_eq_some_iff.1 hf
    obtain ⟨hsame, hid⟩ := node_of_putNode hg hlabel hn hm
    have hfalse := findNode_eq_none_iff.1 hbefore key n hn (hsame.symm.trans hl)
    exact absurd ((hid b).symm.trans hi) (Bool.eq_false_iff.1 hfalse)

/-- The node that a record picks is found, once it is written, by the identities that meet its
own. -/
theorem findNode_putNode_picked_iff (hg : g.WellFormed) (hlabel : u.label ∉ u.extraLabels)
    (hid : u.properties.id.resolve record params = some a) :
    (putNode now u params g record).findNode u.label b = some (g.locateNode now u.label a).2 ↔
      g.Meets u.label a b := by
  cases hf : g.findNode u.label a with
  | some key =>
    rw [locateNode_of_found hf, meets_of_found hf]
    exact findNode_putNode_iff hg hlabel (exists_of_findNode hf)
  | none =>
    rw [locateNode_of_absent hf, meets_of_absent hf]
    refine ⟨fun hfound => ?_, fun ⟨hb, hagrees⟩ => findNode_putNode_of_agrees hid hf hb hagrees⟩
    have hb : g.findNode u.label b = none := by
      refine Option.eq_none_iff_forall_ne_some.2 fun place hplace => ?_
      obtain ⟨n, hn⟩ := exists_of_findNode hplace
      cases (findNode_putNode hg hlabel hplace).symm.trans hfound
      exact hg.node_ne_next hn rfl
    obtain ⟨m, hm, -, hi, -⟩ := findNode_eq_some_iff.1 hfound
    rw [putNode_of_absent hid hf, find?_nodes_addNode, if_pos rfl] at hm
    cases hm
    rw [NodeUpsert.identifiedBy_update, Node.identifiedBy, NodeUpsert.get?_id_created] at hi
    exact ⟨hb, hi⟩

theorem exists_find?_picked (hid : u.properties.id.resolve record params = some a) :
    ∃ n, (putNode now u params g record).nodes.find? (g.locateNode now u.label a).2 = some n := by
  obtain ⟨n, -, -, hn⟩ := find?_putNode now g hid
  exact ⟨_, (hn _).trans (if_pos rfl)⟩

/-- Identities that do not meet a record's find what they found before it was written. -/
theorem findNode_putNode_of_not_meets (hg : g.WellFormed) (hlabel : u.label ∉ u.extraLabels)
    (hid : u.properties.id.resolve record params = some a) (hmeets : ¬ g.Meets u.label a b) :
    (putNode now u params g record).findNode u.label b = g.findNode u.label b := by
  refine Option.ext fun key => ⟨fun hfound => ?_, findNode_putNode hg hlabel⟩
  obtain ⟨n, -, -, hput⟩ := find?_putNode now g hid
  obtain ⟨m, hm⟩ := exists_of_findNode hfound
  have hne : key ≠ (g.locateNode now u.label a).2 := by
    rintro rfl
    exact hmeets ((findNode_putNode_picked_iff hg hlabel hid).1 hfound)
  rw [hput, if_neg hne] at hm
  exact (findNode_putNode_iff hg hlabel ⟨m, hm⟩).1 hfound

/-- A node that is there is picked by records if and only if one of them finds it from the start. -/
theorem mem_pickNodes_iff (hg : g.WellFormed) (hlabel : u.label ∉ u.extraLabels)
    (hid : ∀ r ∈ records, (u.properties.id.resolve r params).isSome = true)
    (hk : ∃ n, g.nodes.find? key = some n) : key ∈ g.pickNodes now u params records ↔
      ∃ b ∈ u.identities params records, g.findNode u.label b = some key := by
  induction records generalizing g with
  | nil => simp [pickNodes, NodeUpsert.identities]
  | cons r rest ih =>
    obtain ⟨hfirst, hrest⟩ := List.forall_mem_cons.1 hid
    obtain ⟨a, ha⟩ := Option.isSome_iff_exists.1 hfirst
    have hids : u.identities params (r :: rest) = a :: u.identities params rest :=
      List.filterMap_cons_some ha
    obtain ⟨n, -, -, hput⟩ := find?_putNode now g ha
    have hkept : ∃ n, (putNode now u params g r).nodes.find? key = some n := by
      rw [hput]
      split
      · exact ⟨_, rfl⟩
      · exact hk
    have hpicked : key = (g.locateNode now u.label a).2 ↔ g.findNode u.label a = some key := by
      cases hf : g.findNode u.label a with
      | some place =>
        rw [locateNode_of_found hf, Option.some_inj, eq_comm]
      | none =>
        obtain ⟨m, hm⟩ := hk
        rw [locateNode_of_absent hf]
        simp [hg.node_ne_next hm]
    rw [pickNodes_cons ha, hids, List.mem_cons, List.exists_mem_cons_iff,
      hpicked, ih hg.putNode hrest hkept]
    simp only [findNode_putNode_iff hg hlabel hk]

/-- Records are written to a node each if and only if no two of their identities meet. -/
theorem nodup_pickNodes_iff (hg : g.WellFormed) (hlabel : u.label ∉ u.extraLabels)
    (hid : ∀ r ∈ records, (u.properties.id.resolve r params).isSome = true) :
    (g.pickNodes now u params records).Nodup ↔
      g.Apart u.label (u.identities params records) := by
  induction records generalizing g with
  | nil => simp [pickNodes, Apart, NodeUpsert.identities]
  | cons r rest ih =>
    obtain ⟨hfirst, hrest⟩ := List.forall_mem_cons.1 hid
    obtain ⟨a, ha⟩ := Option.isSome_iff_exists.1 hfirst
    have hids : u.identities params (r :: rest) = a :: u.identities params rest :=
      List.filterMap_cons_some ha
    have hput : (putNode now u params g r).WellFormed := hg.putNode
    have hpicked : (g.locateNode now u.label a).2 ∉
        (putNode now u params g r).pickNodes now u params rest ↔
          ∀ b ∈ u.identities params rest, ¬ g.Meets u.label a b := by
      rw [mem_pickNodes_iff hput hlabel hrest (exists_find?_picked ha)]
      simp only [findNode_putNode_picked_iff hg hlabel ha, not_exists, not_and]
    rw [pickNodes_cons ha, hids, List.nodup_cons, hpicked, Apart,
      List.pairwise_cons, ih hput hrest]
    refine and_congr_right fun hapart => List.Pairwise.iff_of_mem fun {b c} hb hc => ?_
    rw [Meets, Meets, findNode_putNode_of_not_meets hg hlabel ha (hapart b hb),
      findNode_putNode_of_not_meets hg hlabel ha (hapart c hc)]

theorem length_pickNodes (hid : ∀ r ∈ records, (u.properties.id.resolve r params).isSome = true) :
    (g.pickNodes now u params records).length = records.length := by
  induction records generalizing g with
  | nil => rfl
  | cons r rest ih =>
    obtain ⟨hfirst, hrest⟩ := List.forall_mem_cons.1 hid
    obtain ⟨a, ha⟩ := Option.isSome_iff_exists.1 hfirst
    rw [pickNodes_cons ha, List.length_cons, ih hrest, List.length_cons]

/-- A record that is written to a node of its own ends up as it was written. -/
theorem exists_find?_of_nodup
    (hid : ∀ r ∈ records, (u.properties.id.resolve r params).isSome = true)
    (hnodup : (g.pickNodes now u params records).Nodup) (hr : record ∈ records) :
    ∃ key ∈ g.pickNodes now u params records, ∃ n,
      (records.foldl (putNode now u params) g).nodes.find? key =
        some (u.update params record n) := by
  induction records generalizing g with
  | nil => cases hr
  | cons r rest ih =>
    obtain ⟨hfirst, hrest⟩ := List.forall_mem_cons.1 hid
    obtain ⟨a, ha⟩ := Option.isSome_iff_exists.1 hfirst
    rw [pickNodes_cons ha] at hnodup ⊢
    obtain ⟨hpicked, hothers⟩ := List.nodup_cons.1 hnodup
    rcases List.mem_cons.1 hr with rfl | hr
    · obtain ⟨n, -, -, hput⟩ := find?_putNode now g ha
      refine ⟨_, List.mem_cons_self, n, ?_⟩
      exact (find?_of_not_mem_pickNodes hrest hpicked).trans ((hput _).trans (if_pos rfl))
    · obtain ⟨key, hkey, n, hn⟩ := ih hrest hothers hr
      exact ⟨key, List.mem_cons_of_mem _ hkey, n, hn⟩

theorem pickNodes_append {xs ys : List Record}
    (hid : ∀ r ∈ xs, (u.properties.id.resolve r params).isSome = true) :
    g.pickNodes now u params (xs ++ ys) = g.pickNodes now u params xs ++
      (xs.foldl (putNode now u params) g).pickNodes now u params ys := by
  induction xs generalizing g with
  | nil => rfl
  | cons r rest ih =>
    obtain ⟨hfirst, hrest⟩ := List.forall_mem_cons.1 hid
    obtain ⟨a, ha⟩ := Option.isSome_iff_exists.1 hfirst
    rw [List.cons_append, pickNodes_cons ha, pickNodes_cons ha, ih hrest]
    rfl

theorem pickNodes_withBatch (hs : s.ReadsNoBatch)
    (hid : ∀ r ∈ records, (s.properties.id.resolve r params).isSome = true) :
    g.pickNodes now s.upsert (params.withBatch batch) records =
      g.pickNodes now s.upsert params records := by
  induction records generalizing g with
  | nil => rfl
  | cons r rest ih =>
    obtain ⟨hfirst, hrest⟩ := List.forall_mem_cons.1 hid
    obtain ⟨a, ha⟩ := Option.isSome_iff_exists.1 hfirst
    have hbatch : s.properties.id.resolve r (params.withBatch batch) = some a :=
      (NodeSchema.resolve_id hs r).trans ha
    rw [pickNodes_cons (u := s.upsert) ha, pickNodes_cons (u := s.upsert) hbatch,
      NodeSchema.putNode_withBatch hs, ih hrest]

end Graph

namespace Load

variable {g : Graph} {now tag : Int} {s : NodeSchema} {base params : Parameters}
  {records : List Record} {cs : List (List Record)} {config : LoaderConfig}

/-- Without edges, batches pick the nodes of their records one after the other. -/
theorem picked_eq_pickNodes (hs : s.ReadsNoBatch) (he : s.allEdges = [])
    (hid : ∀ r ∈ cs.flatten, (s.properties.id.resolve r base).isSome = true) :
    g.picked now (cs.flatMap (bindBatch s.loadStatements base)) =
      g.pickNodes now s.upsert base cs.flatten := by
  induction cs generalizing g with
  | nil => rfl
  | cons c cs ih =>
    rw [List.flatten_cons, List.forall_mem_append] at hid
    have hbatch : bindBatch s.loadStatements base c =
        [⟨.upsertNodes s.upsert, base.withBatch c⟩] := by
      rw [NodeSchema.loadStatements_eq, he]
      rfl
    have hrecords : (base.withBatch c).records = .ok c := Parameters.records_withBatch
    have hresolved : ∀ r ∈ c, (s.properties.id.resolve r (base.withBatch c)).isSome = true :=
      fun r hr => by rw [NodeSchema.resolve_id hs, hid.1 r hr]
    rw [List.flatMap_cons, hbatch, List.singleton_append, Graph.picked, Graph.picks, hrecords,
      Graph.apply_upsertNodes hrecords hresolved, List.flatten_cons,
      Graph.pickNodes_append (u := s.upsert) hid.1, NodeSchema.putNodes_withBatch hs]
    simp only [Graph.pickNodes_withBatch hs hid.1, ih hid.2]
    rfl

/-- Without edges, a load writes its records to the nodes that they pick one after the other. -/
theorem written_eq_pickNodes (hs : s.ReadsNoBatch) (he : s.allEdges = []) :
    written config now s records params tag g =
      (indexed s g).pickNodes now s.upsert (baseParameters params tag)
        (kept s records params) := by
  have hid : ∀ r ∈ (chunks config.batchSize (kept s records params)).flatten,
      (s.properties.id.resolve r (baseParameters params tag)).isSome = true := by
    intro r hr
    rw [flatten_chunks] at hr
    have hbatch : (s.properties.id.resolve r ((baseParameters params tag).withBatch [])).isSome =
        true := isSome_resolve_withBatch (isSome_resolve_of_mem_kept hr)
    rwa [NodeSchema.resolve_id hs] at hbatch
  rw [written, ensureIndexes_eq]
  exact (picked_eq_pickNodes hs he hid).trans (by rw [flatten_chunks])

end Load

end GraphSync
