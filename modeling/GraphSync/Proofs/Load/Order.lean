import GraphSync.Proofs.Graph.Permuted
import GraphSync.Proofs.Load.Distinct

/-! Records with distinct texts for identities in another order: a load counts the same, and leaves
a graph that is the same but for its keys. -/
namespace GraphSync

namespace Graph

variable {g h i : Graph} {π : Equiv.Perm Nat} {now : Int} {s : NodeSchema} {e : EdgeSchema}
  {params : Parameters} {records xs ys : List Record} {r r' : Record} {key other : Nat} {n : Node}
  {rows : Record → List (Nat × Nat)} {t : String} {a b : Nat}

theorem DistinctTexts.perm (hd : DistinctTexts s params xs) (hp : xs.Perm ys) :
    DistinctTexts s params ys where
  distinct := (hp.map _).nodup_iff.1 hd.distinct
  texts r hr := hd.texts r (hp.mem_iff.2 hr)

/-- A node has one text, so it is found for one record. -/
theorem DistinctTexts.eq_of_nodeOf (hd : DistinctTexts s params records) (hr : r ∈ records)
    (hr' : r' ∈ records) (hf : g.nodeOf s params r = some key)
    (hf' : g.nodeOf s params r' = some key) : r = r' := by
  obtain ⟨x, hx⟩ := hd.texts r hr
  obtain ⟨y, hy⟩ := hd.texts r' hr'
  rw [nodeOf, hx] at hf
  rw [nodeOf, hy] at hf'
  have hsame : y = x := by
    by_contra hne
    have hmeets : g.Meets s.label (.str y) (.str x) := (meets_of_found hf').2 hf
    exact not_meets_of_ne hne hmeets
  exact List.inj_on_of_nodup_map hd.distinct hr hr' (hx.trans (hsame ▸ hy.symm))

theorem Placed.nodeOf {x : String} (hx : s.properties.id.resolve r params = some (.str x))
    (hp : Placed now s params g h r x key n) : h.nodeOf s params r = some key :=
  nodeOf_eq_some_iff.2 ⟨_, hx, hp.found⟩

/-- Keys, in two graphs, of a node from before or of new nodes that the same record finds. -/
inductive Matched (s : NodeSchema) (params : Parameters) (records : List Record) (g h i : Graph)
    (key other : Nat) : Prop
  | old {n : Node} (hn : g.nodes.find? key = some n) (ho : other = key)
  | new {r : Record} (hr : r ∈ records) (hkey : g.nodes.find? key = none)
      (hother : g.nodes.find? other = none) (hf : h.nodeOf s params r = some key)
      (hf' : i.nodeOf s params r = some other)

theorem Matched.symm (hp : xs.Perm ys) (hm : Matched s params xs g h i key other) :
    Matched s params ys g i h other key := by
  cases hm with
  | old hn ho => exact .old (ho ▸ hn) ho.symm
  | new hr hkey hother hf hf' => exact .new (hp.mem_iff.1 hr) hother hkey hf' hf

theorem Matched.rightUnique (hd : DistinctTexts s params records) :
    Relator.RightUnique (Matched s params records g h i) := by
  intro key a b ha hb
  cases ha with
  | old hn ho =>
    cases hb with
    | old _ ho' => exact ho.trans ho'.symm
    | new _ hkey => cases hn.symm.trans hkey
  | new hr hkey _ hf hf' =>
    cases hb with
    | old hn => cases hn.symm.trans hkey
    | new hr' _ _ hs hs' =>
      obtain rfl := hd.eq_of_nodeOf hr hr' hf hs
      exact Option.some.inj (hf'.symm.trans hs')

theorem Matched.le_lastKey (hg : g.WellFormed) (hh : h.WellFormed)
    (hm : Matched s params records g h i key other) : key ≤ max g.lastKey h.lastKey := by
  cases hm with
  | old hn => exact le_max_of_le_left (hg.node_le hn)
  | new _ _ _ hf =>
    obtain ⟨id, -, hfind⟩ := nodeOf_eq_some_iff.1 hf
    obtain ⟨n, hn, -⟩ := findNode_eq_some_iff.1 hfind
    exact le_max_of_le_right (hh.node_le hn)

/-- Where a record is written to in one graph and in another, both from the same one, is the same
node from before or a new one that is the same. -/
theorem Placed.matched {x : String} {m : Node} (hr : r ∈ records)
    (hx : s.properties.id.resolve r params = some (.str x))
    (hp : Placed now s params g h r x key n) (hp' : Placed now s params g i r x other m) :
    m = n ∧ Matched s params records g h i key other := by
  rcases hp.origin with ⟨hf, hn⟩ | ⟨hf, hnone, rfl⟩
  · rcases hp'.origin with ⟨hf', hm⟩ | ⟨hf', -⟩
    · cases hf.symm.trans hf'
      cases hn.symm.trans hm
      exact ⟨rfl, .old hn rfl⟩
    · cases hf.symm.trans hf'
  · rcases hp'.origin with ⟨hf', -⟩ | ⟨-, hnone', rfl⟩
    · cases hf.symm.trans hf'
    · exact ⟨rfl, .new hr hnone hnone' (hp.nodeOf hx) (hp'.nodeOf hx)⟩

/-- What a record finds in the end is the same node in either order. -/
theorem exists_matched_of_mem (now : Int) (hg : g.WellFormed) (hd : DistinctTexts s params xs)
    (hp : xs.Perm ys) (hr : r ∈ xs) : ∃ key other n,
      (g.putNodes now s params xs).nodeOf s params r = some key ∧
      (g.putNodes now s params ys).nodeOf s params r = some other ∧
      (g.putNodes now s params xs).nodes.find? key = some n ∧
      (g.putNodes now s params ys).nodes.find? other = some n ∧
      Matched s params xs g (g.putNodes now s params xs) (g.putNodes now s params ys)
        key other := by
  obtain ⟨x, hx⟩ := hd.texts r hr
  obtain ⟨key, n, hplaced⟩ := exists_placed now hg hd hr hx
  obtain ⟨other, m, hplaced'⟩ := exists_placed now hg (hd.perm hp) (hp.mem_iff.1 hr) hx
  obtain ⟨rfl, hmatched⟩ := hplaced.matched hr hx hplaced'
  exact ⟨key, other, _, hplaced.nodeOf hx, hplaced'.nodeOf hx, hplaced.node, hplaced'.node,
    hmatched⟩

/-- Every node that is left has one that is the same if the order is another. -/
theorem exists_matched (now : Int) (hg : g.WellFormed) (hd : DistinctTexts s params xs)
    (hp : xs.Perm ys) (hn : (g.putNodes now s params xs).nodes.find? key = some n) :
    ∃ other, Matched s params xs g (g.putNodes now s params xs) (g.putNodes now s params ys)
      key other ∧ (g.putNodes now s params ys).nodes.find? other = some n := by
  by_cases hfound : ∃ r ∈ xs, (g.putNodes now s params xs).nodeOf s params r = some key
  · obtain ⟨r, hr, hf⟩ := hfound
    obtain ⟨k, other, m, hk, -, hm, hm', hmatched⟩ := exists_matched_of_mem now hg hd hp hr
    cases hf.symm.trans hk
    cases hn.symm.trans hm
    exact ⟨other, hmatched, hm'⟩
  · -- the node is from before, and no record is written to it in either order
    have hnone : ∀ r ∈ xs, (g.putNodes now s params xs).nodeOf s params r ≠ some key :=
      fun r hr hf => hfound ⟨r, hr, hf⟩
    have hold : g.nodes.find? key = some n :=
      (find?_putNodes_of_not_found hg hd hnone).symm.trans hn
    refine ⟨key, .old hold rfl, ?_⟩
    refine (find?_putNodes_of_not_found hg (hd.perm hp) fun r hr hf => ?_).trans hold
    obtain ⟨k, other, m, hk, hother, -, -, hmatched⟩ :=
      exists_matched_of_mem now hg hd hp (hp.mem_iff.2 hr)
    cases hf.symm.trans hother
    cases hmatched with
    | old _ ho => exact hnone r (hp.mem_iff.2 hr) (ho ▸ hk)
    | new _ _ hother => cases hold.symm.trans hother

/-- Nodes from before keep their keys, the others are permuted with the records that find them. -/
structure Reorders (π : Equiv.Perm Nat) (s : NodeSchema) (params : Parameters)
    (records : List Record) (g h i : Graph) : Prop where
  fixes : ∀ {key n}, g.nodes.find? key = some n → π key = key
  permutes : Permutes π h i
  nodeOf : ∀ r ∈ records, i.nodeOf s params r = (h.nodeOf s params r).map π

theorem exists_reorders (now : Int) (hg : g.WellFormed) (hd : DistinctTexts s params xs)
    (hp : xs.Perm ys) :
    ∃ π, Reorders π s params xs g (g.putNodes now s params xs) (g.putNodes now s params ys) := by
  have hh : (g.putNodes now s params xs).WellFormed := hg.putNodes
  have hi : (g.putNodes now s params ys).WellFormed := hg.putNodes
  have hunique : Relator.BiUnique (Matched s params xs g (g.putNodes now s params xs)
      (g.putNodes now s params ys)) :=
    ⟨fun _ _ _ ha hb => Matched.rightUnique (hd.perm hp) (ha.symm hp) (hb.symm hp),
      Matched.rightUnique hd⟩
  obtain ⟨π, hπ⟩ := exists_perm_of_biUnique hunique fun _ _ hm => hm.le_lastKey hg hh
  refine ⟨π, fun hn => hπ _ _ (.old hn rfl), fun key => ?_, fun r hr => ?_⟩
  · rw [find?_of_matching (f := id) hπ (fun k n hn => exists_matched now hg hd hp hn)
      (fun l n hn => ?_), Option.map_id]
    · rfl
    · obtain ⟨k, hm, hn'⟩ := exists_matched now hg (hd.perm hp) hp.symm hn
      exact ⟨k, n, hm.symm hp.symm, hn'⟩
  · obtain ⟨key, other, n, hf, hf', -, -, hm⟩ := exists_matched_of_mem now hg hd hp hr
    rw [hf, hf', Option.map_some, hπ key other hm]

/-! Rows that are of one record each leave the same in every order. -/

/-- No two records share a row. -/
def RowsApart (records : List Record) (rows : Record → List (Nat × Nat)) : Prop :=
  ∀ r ∈ records, ∀ r' ∈ records, ∀ row ∈ rows r, row ∈ rows r' → r = r'

/-- The record that has a row tells what the edge of the row becomes. -/
theorem between_recordRows_of_mem (now : Int) (params : Parameters) (hg : g.WellFormed)
    (hends : ∀ r ∈ records, ∀ row ∈ rows r, g.HasEnds row) (hd : records.Nodup)
    (hapart : RowsApart records rows) (hr : r ∈ records) (hrow : e.direction.orient a b ∈ rows r) :
    (g.putRows now params (recordRows e rows records)).between (e.edgeType, a, b) =
      some (e.properties.mapping.assignAll r params
        ((g.between (e.edgeType, a, b)).getD (createdEdge now))) := by
  have hws : ∀ w ∈ recordRows e rows records, g.HasEnds w.row := hasEnds_of_mem_recordRows hends
  obtain ⟨before, after, rfl⟩ := List.append_of_mem hr
  have hnew : r ∉ after := (List.nodup_cons.1 (List.nodup_append.1 hd).2.1).1
  refine between_recordRows now params hg hws ⟨⟨e, r, e.direction.orient a b⟩, ?_, ?_⟩
    fun w hw hj => ?_
  · exact mem_recordRows.2 ⟨rfl, List.mem_singleton_self r, hrow⟩
  · exact EdgeWrite.joint_eq_iff.2 ⟨rfl, rfl⟩
  · obtain ⟨hschema, hlater, hmem⟩ := mem_recordRows.1 hw
    obtain ⟨-, ho⟩ := EdgeWrite.joint_eq_iff.1 hj
    rw [ho, hschema] at hmem
    have hsame : r = w.record :=
      hapart r hr w.record (List.mem_append_right _ (List.mem_cons_of_mem _ hlater)) _ hrow hmem
    exact hnew (hsame ▸ hlater)

theorem between_recordRows_of_not_mem (hg : g.WellFormed)
    (hends : ∀ r ∈ records, ∀ row ∈ rows r, g.HasEnds row)
    (hnone : t = e.edgeType → ∀ r ∈ records, e.direction.orient a b ∉ rows r) :
    (g.putRows now params (recordRows e rows records)).between (t, a, b) =
      g.between (t, a, b) := by
  refine between_putRows_of_joint_ne hg (hasEnds_of_mem_recordRows hends) fun w hw hj => ?_
  obtain ⟨hschema, hr, hrow⟩ := mem_recordRows.1 hw
  obtain ⟨htype, ho⟩ := EdgeWrite.joint_eq_iff.1 hj
  rw [hschema] at htype ho
  exact hnone htype.symm w.record hr (ho ▸ hrow)

/-- Rows between permuted nodes leave permuted edges, whichever order their records have. -/
theorem PermutesEdges.recordRows {rows' : Record → List (Nat × Nat)} (hg : g.WellFormed)
    (hh : h.WellFormed) (hends : ∀ r ∈ xs, ∀ row ∈ rows r, g.HasEnds row)
    (hends' : ∀ r ∈ ys, ∀ row ∈ rows' r, h.HasEnds row) (hd : xs.Nodup)
    (hapart : RowsApart xs rows) (hp : xs.Perm ys)
    (hrows : ∀ r ∈ xs, ∀ a b, (π a, π b) ∈ rows' r ↔ (a, b) ∈ rows r)
    (hedges : PermutesEdges π g h) :
    PermutesEdges π (g.putRows now params (recordRows e rows xs))
      (h.putRows now params (recordRows e rows' ys)) := by
  have hapart' : RowsApart ys rows' := by
    intro r hr r' hr' row hrow hrow'
    obtain ⟨a, b⟩ := row
    obtain ⟨a, rfl⟩ := π.surjective a
    obtain ⟨b, rfl⟩ := π.surjective b
    have hx : r ∈ xs := hp.mem_iff.2 hr
    have hx' : r' ∈ xs := hp.mem_iff.2 hr'
    exact hapart r hx r' hx' (a, b) ((hrows r hx a b).1 hrow) ((hrows r' hx' a b).1 hrow')
  have horient : ∀ r ∈ xs, ∀ a b, e.direction.orient (π a) (π b) ∈ rows' r ↔
      e.direction.orient a b ∈ rows r := by
    intro r hr a b
    have hmap : e.direction.orient (π a) (π b) =
        (π (e.direction.orient a b).1, π (e.direction.orient a b).2) := by
      cases e.direction <;> rfl
    rw [hmap]
    exact hrows r hr _ _
  intro t a b
  by_cases hfound : t = e.edgeType ∧ ∃ r ∈ xs, e.direction.orient a b ∈ rows r
  · obtain ⟨rfl, r, hr, hrow⟩ := hfound
    rw [between_recordRows_of_mem now params hg hends hd hapart hr hrow,
      between_recordRows_of_mem now params hh hends' (hp.nodup_iff.1 hd) hapart'
        (hp.mem_iff.1 hr) ((horient r hr a b).2 hrow), hedges]
  · rw [between_recordRows_of_not_mem hg hends fun ht r hr hrow => hfound ⟨ht, r, hr, hrow⟩,
      between_recordRows_of_not_mem hh hends' fun ht r hr hrow => ?_, hedges]
    have hx : r ∈ xs := hp.mem_iff.2 hr
    exact hfound ⟨ht, r, hx, (horient r hx a b).1 hrow⟩

/-! The edges of loaded nodes, for one schema and for all of them. -/

theorem DistinctTexts.rowsApart (hd : DistinctTexts s params records) :
    RowsApart records (g.edgeRows (s.edgeUpsert e) params) := by
  intro r hr r' hr' row hrow hrow'
  exact hd.eq_of_nodeOf hr hr' (mem_edgeRows_nodeOf.1 hrow).1 (mem_edgeRows_nodeOf.1 hrow').1

section Edges

variable {p q : Graph} (hp : xs.Perm ys) (hπ : Permutes π p q)
  (hnode : ∀ r ∈ xs, q.nodeOf s params r = (p.nodeOf s params r).map π)

include hp hπ hnode

/-- The records have as many rows in either order. -/
theorem total_rowCounts_perm :
    total (q.rowCounts s params ys) = total (p.rowCounts s params xs) := by
  have hcount : ∀ e, total (ys.map fun r => (q.edgeRows (s.edgeUpsert e) params r).length) =
      total (xs.map fun r => (p.edgeRows (s.edgeUpsert e) params r).length) := by
    intro e
    refine (hp.map _).sum_eq.symm.trans (congrArg total (List.map_congr_left fun r hr => ?_))
    rw [length_edgeRows, length_edgeRows]
    exact hπ.rowCount (hnode r hr)
  rw [rowCounts_eq, rowCounts_eq]
  exact congrArg total (List.map_congr_left fun e _ => hcount e)

variable (hd : DistinctTexts s params xs)

include hd

theorem permutesEdges_writeEdges (hg : g.WellFormed) (hh : h.WellFormed) (hn : g.nodes = p.nodes)
    (hn' : h.nodes = q.nodes) (hedges : PermutesEdges π g h) :
    PermutesEdges π (g.writeEdges now e params (p.rowsOf s params e xs))
      (h.writeEdges now e params (q.rowsOf s params e ys)) := by
  rw [rowsOf, rowsOf, writeEdges_eq_putRows, writeEdges_eq_putRows]
  refine hedges.recordRows hg hh (fun r _ row hrow => ?_) (fun r _ row hrow => ?_) ?_
    hd.rowsApart hp fun r hr a b => ?_
  · exact (hasEnds_congr hn).2 (hasEnds_of_mem_edgeRows hrow)
  · exact (hasEnds_congr hn').2 (hasEnds_of_mem_edgeRows hrow)
  · exact List.Nodup.of_map _ hd.distinct
  · rw [mem_edgeRows_nodeOf, mem_edgeRows_nodeOf, hnode r hr, hπ.mem_matching,
      Option.map_eq_some_iff]
    simp only [π.injective.eq_iff, exists_eq_right]

/-- One schema after the other leaves permuted edges, since the nodes stay the same. -/
theorem permutesEdges_putEdges (hg : p.WellFormed) (hh : q.WellFormed)
    (hedges : PermutesEdges π p q) :
    PermutesEdges π (p.putEdges now s params xs) (q.putEdges now s params ys) := by
  have hall : ∀ (es : List EdgeSchema) {g h : Graph}, g.WellFormed → h.WellFormed →
      g.nodes = p.nodes → h.nodes = q.nodes → PermutesEdges π g h → PermutesEdges π
        (es.foldl (fun g e => g.writeEdges now e params (p.rowsOf s params e xs)) g)
        (es.foldl (fun h e => h.writeEdges now e params (q.rowsOf s params e ys)) h) := by
    intro es
    induction es with
    | nil => exact fun _ _ _ _ h => h
    | cons e es ih =>
      intro g h hg hh hn hn' hedges
      exact ih (hg.writeEdges hn) (hh.writeEdges hn') (nodes_writeEdges.trans hn)
        (nodes_writeEdges.trans hn') (permutesEdges_writeEdges hp hπ hnode hd hg hh hn hn' hedges)
  exact hall s.allEdges hg hh rfl rfl hedges

end Edges

/-- A batch writes as many rows in another order, and leaves the same but for the keys. -/
theorem alike_loadBatch_perm (now : Int) (hg : g.WellFormed) (hd : DistinctTexts s params xs)
    (hp : xs.Perm ys) :
    total ((g.putNodes now s params ys).rowCounts s params ys) =
        total ((g.putNodes now s params xs).rowCounts s params xs) ∧
      (g.loadBatch now s params xs).Alike (g.loadBatch now s params ys) := by
  obtain ⟨π, hfix, hπ, hnode⟩ := exists_reorders now hg hd hp
  have hh : (g.putNodes now s params xs).WellFormed := hg.putNodes
  have hi : (g.putNodes now s params ys).WellFormed := hg.putNodes
  have hedges : PermutesEdges π (g.putNodes now s params xs) (g.putNodes now s params ys) := by
    intro t a b
    rw [between_congr edges_putNodes, between_congr edges_putNodes]
    exact permutesEdges_of_fixes hg hfix t a b
  have hnodes : Permutes π (g.loadBatch now s params xs) (g.loadBatch now s params ys) := by
    intro key
    rw [nodes_loadBatch, nodes_loadBatch, hπ key]
  refine ⟨total_rowCounts_perm hp hπ hnode, ?_⟩
  exact alike_of_permutes hg.loadBatch hg.loadBatch hnodes
    (permutesEdges_putEdges hp hπ hnode hd hh hi hedges)
    (indexes_loadBatch.trans indexes_loadBatch.symm)

end Graph

namespace Load

variable {g : Graph} {now tag : Int} {s : NodeSchema} {params base : Parameters}
  {records others xs ys : List Record} {config : LoaderConfig} {texts : List String}

/-- Records that fit in one batch are loaded alike in another order. -/
theorem alike_batches_perm (now : Int) {size : Nat} (hs : s.ReadsNoBatch) (hg : g.WellFormed)
    (hd : Graph.DistinctTexts s base xs) (hp : xs.Perm ys) (hfit : xs.length ≤ max size 1) :
    edgeCount now s base g (chunks size ys) = edgeCount now s base g (chunks size xs) ∧
      (batches now s base g (chunks size xs)).Alike (batches now s base g (chunks size ys)) := by
  by_cases hnone : xs = []
  · subst hnone
    rw [hp.nil_eq]
    exact ⟨rfl, .refl _⟩
  · have hnone' : ys ≠ [] := by
      rintro rfl
      exact hnone hp.eq_nil
    obtain ⟨hcount, halike⟩ := Graph.alike_loadBatch_perm now hg hd hp
    rw [chunks_of_length_le hnone hfit, chunks_of_length_le hnone' (hp.length_eq ▸ hfit),
      edgeCount_cons hs hg, edgeCount_cons hs hg, batches_cons hs, batches_cons hs, hcount]
    exact ⟨rfl, halike⟩

/-- Records have distinct texts for identities, once those without one are left out. -/
theorem distinctTexts_kept (hsource : s.properties.id.source = .recordField)
    (htexts : records.filterMap (·.present s.properties.id.name) = texts.map .str)
    (hd : texts.Nodup) : Graph.DistinctTexts s base (kept s records params) := by
  have hresolve : ∀ (r : Record) (params : Parameters),
      s.properties.id.resolve r params = r.present s.properties.id.name := by
    intro r params
    rw [PropertyRef.resolve, PropertyRef.find?, hsource]
    rfl
  have hmap : (kept s records params).map (s.properties.id.resolve · base) =
      texts.map fun x => some (.str x) := by
    have hsome : (records.filterMap (·.present s.properties.id.name)).map some =
        (records.map (·.present s.properties.id.name)).filter (·.isSome) :=
      List.map_filterMap_some_eq_filter_map_isSome
    rw [htexts, List.map_map, List.filter_map] at hsome
    simp only [kept, hresolve]
    exact hsome.symm
  constructor
  · rw [hmap]
    exact hd.map fun x y hxy => Json.str.inj (Option.some.inj hxy)
  · intro r hr
    have hmem : s.properties.id.resolve r base ∈ texts.map fun x => some (.str x) :=
      hmap ▸ List.mem_map_of_mem hr
    obtain ⟨x, -, hx⟩ := List.mem_map.1 hmem
    exact ⟨x, hx.symm⟩

/-- The order of records makes no difference to a load if their identities are distinct texts and
they fit in one batch: the summary is the same, and so is the graph but for its keys. -/
theorem nodes_perm (config : LoaderConfig) (now tag : Int) (params : Parameters)
    (hs : s.ReadsNoBatch) (hsource : s.properties.id.source = .recordField) (hg : g.WellFormed)
    (hp : records.Perm others) (hfit : (kept s records params).length ≤ max config.batchSize 1)
    (htexts : records.filterMap (·.present s.properties.id.name) = texts.map .str)
    (hd : texts.Nodup) :
    (Load.nodes config now s records params tag g).1 =
        (Load.nodes config now s others params tag g).1 ∧
      (Load.nodes config now s records params tag g).2.Alike
        (Load.nodes config now s others params tag g).2 := by
  have hkept : (kept s records params).Perm (kept s others params) := hp.filter _
  have hdistinct : Graph.DistinctTexts s (baseParameters params tag) (kept s records params) :=
    distinctTexts_kept hsource htexts hd
  obtain ⟨hcount, halike⟩ :=
    alike_batches_perm now hs (wellFormed_indexed hg) hdistinct hkept hfit
  rw [nodes_eq, nodes_eq]
  split
  · exact ⟨rfl, .refl _⟩
  · rw [hcount, hkept.length_eq, hp.length_eq]
    exact ⟨rfl, halike⟩

/-- Two buckets of a project are new, and get keys in their order. -/
theorem nodes_perm_of_sample : ∃ g summary h i, g.Reachable ∧
    Load.nodes {} 5 Sample.bucket Sample.twoBuckets Sample.params 2 g = (.ok summary, h) ∧
      Load.nodes {} 5 Sample.bucket Sample.twoBuckets.reverse Sample.params 2 g =
        (.ok summary, i) ∧
      h.Alike i := by
  have hg : (Graph.empty.addNode (Sample.node "Project" "p" 1)).Reachable := .seed _ _ .empty
  have htexts : Sample.twoBuckets.filterMap (·.present Sample.bucket.properties.id.name) =
      ["old", "new"].map .str := rfl
  have hfit : (kept Sample.bucket Sample.twoBuckets Sample.params).length ≤
      max ({} : LoaderConfig).batchSize 1 := by decide
  have hboth := nodes_perm {} 5 2 Sample.params (by decide) rfl hg.wellFormed
    (List.reverse_perm _).symm hfit htexts (by decide)
  obtain ⟨summary, h, hload⟩ := nodes_of_check {} 5 Sample.twoBuckets
    (Graph.empty.addNode (Sample.node "Project" "p" 1)) Sample.check_load
  obtain ⟨summary', i, hload'⟩ := nodes_of_check {} 5 Sample.twoBuckets.reverse
    (Graph.empty.addNode (Sample.node "Project" "p" 1)) Sample.check_load
  rw [hload, hload'] at hboth
  obtain ⟨hsame, halike⟩ := hboth
  cases hsame
  exact ⟨_, summary, h, i, hg, hload, hload', halike⟩

end Load

end GraphSync
