import GraphSync.Proofs.Cleanup.Effect
import GraphSync.Proofs.Load.Writes
import GraphSync.Proofs.Sync.Tracks

/-! Loads and cleanups do the same to graphs that look the same to their schema. -/
namespace GraphSync

/-- The targets that a change creates indexes for. -/
def Change.targets : Change → List IndexTarget
  | index targets => targets
  | _ => []

namespace NodeSchema

/-- The same changes made to two graphs, one after the other; each is one that the schema allows. -/
inductive Mirrors (s : NodeSchema) (σ : Nat → Nat) (x y : Graph) : Graph → Graph → Prop
  | refl : Mirrors s σ x y x y
  | step {u v : Graph} {c : Change} (hrun : Mirrors s σ x y u v) (ha : s.Allows u c) :
      Mirrors s σ x y (c.apply u) ((c.rename σ).apply v)

variable {s : NodeSchema} {σ : Nat → Nat} {x y u v z w : Graph} {now : Int}
  {params : Parameters} {record : Record} {records : List Record}

theorem Mirrors.single {c : Change} (ha : s.Allows x c) :
    s.Mirrors σ x y (c.apply x) ((c.rename σ).apply y) := .step .refl ha

theorem Mirrors.trans (hfirst : s.Mirrors σ x y u v) (hrest : s.Mirrors σ u v z w) :
    s.Mirrors σ x y z w := by
  induction hrest with
  | refl => exact hfirst
  | step _ ha ih => exact .step ih ha

/-- Graphs that look the same to a schema still do after a run of its changes. -/
theorem Mirrors.tracks (hm : s.Mirrors σ x y u v) (ht : s.Tracks σ x y) : s.Tracks σ u v := by
  induction hm with
  | refl => exact ht
  | step _ ha ih => exact ih.change ha

theorem Mirrors.confined_left (hm : s.Mirrors σ x y u v) (ht : s.Tracks σ x y) :
    s.Confined x u := by
  induction hm with
  | refl => exact .refl s x
  | step hrun ha ih =>
    have hmid := hrun.tracks ht
    exact ih.trans ht.left hmid.left (ha.wellFormed hmid.left) (ha.confined hmid.left)

theorem Mirrors.confined_right (hm : s.Mirrors σ x y u v) (ht : s.Tracks σ x y) :
    s.Confined y v := by
  induction hm with
  | refl => exact .refl s y
  | step hrun ha ih =>
    have hmid := hrun.tracks ht
    have hright := hmid.allows_rename ha
    exact ih.trans ht.right hmid.right (hright.wellFormed hmid.right) (hright.confined hmid.right)

theorem indexes_apply (g : Graph) (c : Change) :
    (c.apply g).indexes = SortedSet.addAll g.indexes c.targets := by
  cases c <;> rfl

/-- A run creates the same indexes in both graphs. -/
theorem Mirrors.exists_indexes (hm : s.Mirrors σ x y u v) : ∃ targets,
    u.indexes = SortedSet.addAll x.indexes targets ∧
      v.indexes = SortedSet.addAll y.indexes targets := by
  induction hm with
  | refl => exact ⟨[], rfl, rfl⟩
  | @step u v c _ _ ih =>
    obtain ⟨targets, hu, hv⟩ := ih
    have hsame : (c.rename σ).targets = c.targets := by cases c <;> rfl
    refine ⟨targets ++ c.targets, ?_, ?_⟩
    · rw [indexes_apply, hu, SortedSet.addAll, SortedSet.addAll, SortedSet.addAll,
        List.foldl_append]
    · rw [indexes_apply, hsame, hv, SortedSet.addAll, SortedSet.addAll, SortedSet.addAll,
        List.foldl_append]

/-- A run of writes is mirrored if each of them is, wherever the graphs look the same. -/
theorem mirrors_foldl {α : Type} {f g : Graph → α → Graph} {P : Graph → Prop} {as : List α}
    (hstep : ∀ a ∈ as, ∀ u v, s.Tracks σ u v → P u → s.Mirrors σ u v (f u a) (g v a) ∧ P (f u a))
    (ht : s.Tracks σ x y) (hx : P x) : s.Mirrors σ x y (as.foldl f x) (as.foldl g y) := by
  induction as generalizing x y with
  | nil => exact .refl
  | cons a as ih =>
    obtain ⟨hfirst, hrest⟩ := List.forall_mem_cons.1 hstep
    obtain ⟨hrun, hp⟩ := hfirst x y ht hx
    exact hrun.trans (ih hrest (hrun.tracks ht) hp)

/-! Loads. -/

theorem mem_labels_of_hasLabel {id : Json} {l : String}
    (hl : (s.upsert.update params record (s.upsert.created now id)).hasLabel l = true) :
    l ∈ s.labels := by
  rw [NodeUpsert.hasLabel_update, NodeUpsert.hasLabel_created, Bool.or_eq_true, decide_eq_true_eq,
    decide_eq_true_eq] at hl
  rcases hl with rfl | hl
  · exact List.mem_cons_self
  · exact List.mem_cons_of_mem _ hl

theorem allows_created {id : Json} : s.Allows x
    (.addNode (s.upsert.update params record (s.upsert.created now id))) := by
  refine .addNode ?_ fun l hl => mem_labels_of_hasLabel hl
  rw [Describes, NodeUpsert.hasLabel_update, NodeUpsert.hasLabel_created]
  simp [upsert]

theorem allows_updated {key : Nat} {n : Node} (hn : x.nodes.find? key = some n)
    (hd : s.Describes n) : s.Allows x (.setNode key (s.upsert.update params record n)) := by
  refine .setNode hn hd (fun l hl => ?_) fun l hl => ?_
  · rw [NodeUpsert.hasLabel_update, hl, Bool.true_or]
  · rw [NodeUpsert.hasLabel_update, Bool.or_eq_true, decide_eq_true_eq] at hl
    exact hl.symm.imp_left fun h => List.mem_cons_of_mem _ h

theorem mirrors_putNode (ht : s.Tracks σ x y) :
    s.Mirrors σ x y (x.putNode now s.upsert params record)
      (y.putNode now s.upsert params record) := by
  cases hid : s.upsert.properties.id.resolve record params with
  | none =>
    rw [Graph.putNode, Graph.putNode, hid]
    exact .refl
  | some id =>
    have hfind : y.findNode s.upsert.label id = (x.findNode s.upsert.label id).map σ :=
      ht.findNode id
    cases hf : x.findNode s.upsert.label id with
    | none =>
      rw [hf, Option.map_none] at hfind
      rw [Graph.putNode_of_absent hid hf, Graph.putNode_of_absent hid hfind]
      exact .single allows_created
    | some key =>
      obtain ⟨n, hn, hl, -⟩ := Graph.findNode_eq_some_iff.1 hf
      have hd : s.Describes n := hl
      rw [hf, Option.map_some] at hfind
      rw [Graph.putNode_of_found hid hf hn,
        Graph.putNode_of_found hid hfind ((ht.node hd.sees).2 hn)]
      exact .single (allows_updated hn hd)

theorem mirrors_putNodes (ht : s.Tracks σ x y) :
    s.Mirrors σ x y (x.putNodes now s params records) (y.putNodes now s params records) :=
  mirrors_foldl (P := fun _ => True) (fun _ _ _ _ ht _ => ⟨mirrors_putNode ht, trivial⟩) ht trivial

theorem mirrors_touchEdge {edgeType : String} {start finish : Nat} {f : Record → Record}
    (ht : s.Tracks σ x y) (hr : x.Spans s start finish) :
    s.Mirrors σ x y (x.touchEdge now edgeType start finish f)
      (y.touchEdge now edgeType (σ start) (σ finish) f) := by
  have hfind : y.findEdge edgeType (σ start) (σ finish) =
      (x.findEdge edgeType start finish).map σ := ht.findEdge hr
  cases hf : x.findEdge edgeType start finish with
  | none =>
    rw [hf, Option.map_none] at hfind
    rw [Graph.touchEdge_of_absent hf, Graph.touchEdge_of_absent hfind]
    exact .single (.addEdge hf hr)
  | some key =>
    obtain ⟨e, he, hj⟩ := Graph.findEdge_eq_some hf
    obtain ⟨rfl, rfl, rfl⟩ := Edge.joins_iff.1 hj
    rw [hf, Option.map_some] at hfind
    rw [Graph.touchEdge_of_found hf he, Graph.touchEdge_of_found hfind ((ht.edge hr).2 he)]
    exact .single (.setEdge (f e.properties) he hr)

/-- The same write, of the row between the renamed nodes. -/
def renameWrite (σ : Nat → Nat) (w : EdgeWrite) : EdgeWrite := { w with row := Prod.map σ σ w.row }

theorem ends_renameWrite (w : EdgeWrite) : (renameWrite σ w).ends = Prod.map σ σ w.ends := by
  rw [EdgeWrite.ends, EdgeWrite.ends, renameWrite]
  cases w.schema.direction <;> rfl

theorem mirrors_putEdge {w : EdgeWrite} (ht : s.Tracks σ x y) (hr : x.Spans s w.row.1 w.row.2) :
    s.Mirrors σ x y (x.putEdge now params w) (y.putEdge now params (renameWrite σ w)) := by
  rw [Graph.putEdge_eq_touchEdge, Graph.putEdge_eq_touchEdge, ends_renameWrite]
  exact mirrors_touchEdge ht (hr.orient w.schema.direction)

theorem spans_of_mem_edgeRows {e : EdgeSchema} {row : Nat × Nat} (he : e ∈ s.allEdges)
    (hrow : row ∈ x.edgeRows (s.edgeUpsert e) params record) : x.Spans s row.1 row.2 := by
  obtain ⟨id, -, hf, hm⟩ := Graph.mem_edgeRows.1 hrow
  obtain ⟨n, hn, hl, -⟩ := Graph.findNode_eq_some_iff.1 hf
  obtain ⟨-, -, m, hm, hlm, -⟩ := Graph.mem_matching.1 hm
  have hd : x.DescribedBy s row.1 := ⟨n, hn, hl⟩
  exact ⟨hd.seenBy, ⟨m, hm, _, List.mem_cons_of_mem _ (Tracks.mem_targetLabels he), hlm⟩, .inl hd⟩

theorem spans_of_mem_batchWrites {w : EdgeWrite} (hw : w ∈ x.batchWrites s params records) :
    x.Spans s w.row.1 w.row.2 := by
  obtain ⟨e, he, hw⟩ := List.mem_flatMap.1 hw
  exact spans_of_mem_edgeRows he (Graph.mem_schemaWrites.1 hw).2.2

theorem Tracks.batchWrites (ht : s.Tracks σ x y) : y.batchWrites s params records =
    (x.batchWrites s params records).map (renameWrite σ) := by
  rw [Graph.batchWrites, Graph.batchWrites, List.map_flatMap]
  refine List.flatMap_congr fun e he => ?_
  simp only [Graph.schemaWrites, List.map_flatMap, List.map_map, ht.edgeRows he]
  rfl

theorem mirrors_putEdges (ht : s.Tracks σ x y) :
    s.Mirrors σ x y (x.putEdges now s params records) (y.putEdges now s params records) := by
  rw [Graph.putEdges_eq_foldl, Graph.putEdges_eq_foldl, ht.batchWrites, List.foldl_map]
  refine mirrors_foldl (P := fun u => u.nodes = x.nodes) (fun w hw u v ht hu => ?_) ht rfl
  have hspans := (Graph.spans_congr hu).2 (spans_of_mem_batchWrites hw)
  exact ⟨mirrors_putEdge ht hspans, Graph.nodes_writeEdge.trans hu⟩

theorem mirrors_loadBatch (ht : s.Tracks σ x y) :
    s.Mirrors σ x y (x.loadBatch now s params records) (y.loadBatch now s params records) :=
  (mirrors_putNodes ht).trans (mirrors_putEdges ((mirrors_putNodes ht).tracks ht))

theorem Tracks.rowCounts (ht : s.Tracks σ x y) :
    y.rowCounts s params records = x.rowCounts s params records := by
  refine List.map_congr_left fun e he => ?_
  simp only [Graph.rowsOf, List.map_map, Function.comp_def, ht.edgeRows he, List.length_map]

theorem mirrors_batches {cs : List (List Record)} (ht : s.Tracks σ x y) :
    s.Mirrors σ x y (Load.batches now s params x cs) (Load.batches now s params y cs) :=
  mirrors_foldl (P := fun _ => True) (fun _ _ _ _ ht _ => ⟨mirrors_loadBatch ht, trivial⟩) ht
    trivial

theorem Tracks.edgeCount {cs : List (List Record)} (ht : s.Tracks σ x y) :
    Load.edgeCount now s params y cs = Load.edgeCount now s params x cs := by
  induction cs generalizing x y with
  | nil => rfl
  | cons c cs ih =>
    have hnodes : s.Tracks σ (x.putNodes now s (params.withBatch c) c)
        (y.putNodes now s (params.withBatch c) c) := (mirrors_putNodes ht).tracks ht
    rw [Load.edgeCount, Load.edgeCount, hnodes.rowCounts, ih ((mirrors_loadBatch ht).tracks ht)]

/-- A load does the same to both graphs, and counts the same. -/
theorem mirrors_load {config : LoaderConfig} {tag : Int} {summary : LoadSummary}
    (ht : s.Tracks σ x y)
    (hl : Load.nodes config now s records params tag x = (.ok summary, u)) : ∃ v,
    Load.nodes config now s records params tag y = (.ok summary, v) ∧ s.Mirrors σ x y u v := by
  have hindexes : s.Mirrors σ x y (Load.indexed s x) (Load.indexed s y) := .single (.index _)
  have hcheck := Load.forM_check_eq_ok_iff.2 (Load.batches_of_nodes hl).1
  rw [Load.nodes_eq, hcheck] at hl
  cases hl
  refine ⟨_, ?_, hindexes.trans (mirrors_batches (hindexes.tracks ht))⟩
  rw [Load.nodes_eq, hcheck, (hindexes.tracks ht).edgeCount]

/-! Cleanups. -/

variable {tag : Json} {size : Nat} {keys : List Nat}

theorem Tracks.staleNodes (ht : s.Tracks σ x y) :
    y.staleNodes params tag s.label s.scope =
      (x.staleNodes params tag s.label s.scope).map σ := by
  simp only [Graph.staleNodes, ht.labelled List.mem_cons_self, List.filter_map, List.map_map]
  refine congrArg (List.map (σ ∘ fun b : Nat × Node => b.1)) (List.filter_congr fun b hb => ?_)
  obtain ⟨hn, hl⟩ := Graph.mem_labelled.1 hb
  simp only [Function.comp_apply, ht.inScope ⟨_, hn, hl⟩]

/-- Edges are found alike in both graphs by a condition that only edges between ends that the
schema spans satisfy. -/
theorem Tracks.staleEdges (ht : s.Tracks σ x y) {p : Graph → Edge → Bool}
    (hspans : ∀ {g e}, p g e = true → g.Spans s e.start e.finish)
    (hp : ∀ {e : Edge}, x.Spans s e.start e.finish → p y (e.rename σ) = p x e) :
    y.staleEdges tag (p y) = (x.staleEdges tag (p x)).map σ := by
  have hsorted : ((x.staleEdges tag (p x)).map σ).Pairwise (· < ·) :=
    List.pairwise_map.2 ((Graph.pairwise_staleEdges x (p x)).imp fun h => ht.mono h)
  refine (Graph.pairwise_staleEdges y (p y)).eq_of_mem_iff hsorted fun key => ?_
  rw [Graph.mem_staleEdges, List.mem_map]
  constructor
  · rintro ⟨f, hf, hstale, hpf⟩
    obtain ⟨k, e, rfl, rfl, he, hr⟩ := ht.exists_edge hf (hspans hpf)
    exact ⟨k, Graph.mem_staleEdges.2 ⟨e, he, hstale, (hp hr).symm.trans hpf⟩, rfl⟩
  · rintro ⟨k, hk, rfl⟩
    obtain ⟨e, he, hstale, hpe⟩ := Graph.mem_staleEdges.1 hk
    have hr := hspans hpe
    exact ⟨e.rename σ, (ht.edge hr).2 he, hstale, (hp hr).trans hpe⟩

theorem ends_rename (e : Edge) (d : Direction) :
    (e.rename σ).ends d = Prod.map σ σ (e.ends d) := by
  cases d <;> rfl

/-- The two ends of an edge, seen from the schema's node. -/
theorem spans_of_ends {e : Edge} {d : Direction}
    (hr : x.Spans s (e.ends d).1 (e.ends d).2) : x.Spans s e.start e.finish := by
  cases d with
  | inward => exact hr.orient .inward
  | outward => exact hr

theorem spans_of_isScopedEdge {r : EdgeSchema} {scope : Option Scope} {e : Edge}
    (hr : r ∈ s.allEdges) (hp : x.isScopedEdge params s.label scope r.pattern e = true) :
    x.Spans s e.start e.finish := by
  simp only [Graph.isScopedEdge, Graph.hasPattern, Bool.and_eq_true] at hp
  obtain ⟨n, hn, hl⟩ := Graph.hasLabel_iff.1 hp.1.1.2
  obtain ⟨m, hm, hlm⟩ := Graph.hasLabel_iff.1 hp.1.2
  have hd : x.DescribedBy s (e.ends r.pattern.direction).1 := ⟨n, hn, hl⟩
  refine spans_of_ends (d := r.pattern.direction) ⟨hd.seenBy, ⟨m, hm, ?_⟩, .inl hd⟩
  exact ⟨_, List.mem_cons_of_mem _ (Tracks.mem_targetLabels hr), hlm⟩

theorem spans_of_isOwnership {o : EdgeSchema} {e : Edge} (ho : o ∈ s.allEdges)
    (hp : x.isOwnership params s.label ⟨o.edgeType, o.target⟩ e = true) :
    x.Spans s e.start e.finish := by
  simp only [Graph.isOwnership, Bool.and_eq_true] at hp
  obtain ⟨n, hn, hl⟩ := Graph.hasLabel_iff.1 hp.1.2
  have hd : x.DescribedBy s e.finish := ⟨n, hn, hl⟩
  exact ⟨Tracks.seenBy_of_isOwner (Tracks.mem_targetLabels ho) hp.2, hd.seenBy, .inr hd⟩

theorem Tracks.isScopedEdge (ht : s.Tracks σ x y) {r : EdgeSchema} (hr : r ∈ s.allEdges)
    (e : Edge) : y.isScopedEdge params s.label s.scope r.pattern (e.rename σ) =
      x.isScopedEdge params s.label s.scope r.pattern e := by
  have hpattern : y.hasPattern s.label r.pattern (e.rename σ) =
      x.hasPattern s.label r.pattern e := by
    have htarget : r.pattern.otherLabel ∈ s.label :: s.targetLabels :=
      List.mem_cons_of_mem _ (Tracks.mem_targetLabels hr)
    simp only [Graph.hasPattern, ends_rename, Prod.map_fst, Prod.map_snd]
    rw [ht.hasLabel List.mem_cons_self, ht.hasLabel htarget]
    rfl
  rw [Graph.isScopedEdge, Graph.isScopedEdge, hpattern, ends_rename]
  cases hp : x.hasPattern s.label r.pattern e with
  | false => rfl
  | true =>
    simp only [Graph.hasPattern, Bool.and_eq_true] at hp
    rw [Prod.map_fst, ht.inScope (Graph.hasLabel_iff.1 hp.1.2)]

theorem Tracks.isOwnership (ht : s.Tracks σ x y) {o : EdgeSchema} (ho : o ∈ s.allEdges)
    (e : Edge) : y.isOwnership params s.label ⟨o.edgeType, o.target⟩ (e.rename σ) =
      x.isOwnership params s.label ⟨o.edgeType, o.target⟩ e := by
  have howner : y.isOwner params ⟨o.edgeType, o.target⟩ (σ e.start) =
      x.isOwner params ⟨o.edgeType, o.target⟩ e.start := ht.isOwner (Tracks.mem_targetLabels ho)
  have hlabel : y.hasLabel (σ e.finish) s.label = x.hasLabel e.finish s.label :=
    ht.hasLabel List.mem_cons_self
  simp only [Graph.isOwnership, Edge.rename, howner, hlabel]

/-- Each sweep of a cleanup finds the same in both graphs, and takes the same away. -/
theorem Tracks.sweep (ht : s.Tracks σ x y) {w : Sweep} (hw : w ∈ s.sweeps params tag) :
    w.targets y = (w.targets x).map σ ∧ ∀ keys, (∀ key ∈ keys, key ∈ w.targets x) →
      s.Mirrors σ x y (w.strike x keys) (w.strike y (keys.map σ)) := by
  rw [sweeps_eq, List.mem_cons] at hw
  rcases hw with rfl | hw
  · refine ⟨ht.staleNodes, fun keys hkeys => .single (.removeNodes fun key hk => ?_)⟩
    obtain ⟨n, hn, hl, -⟩ := Graph.mem_staleNodes.1 (hkeys key hk)
    exact ⟨n, hn, hl⟩
  · rcases edgeSweep_cases hw with ⟨r, hr, rfl⟩ | ⟨o, ho, rfl⟩
    · refine ⟨ht.staleEdges (fun hp => spans_of_isScopedEdge hr hp)
        (fun {e} _ => ht.isScopedEdge hr e), fun keys hkeys => ?_⟩
      refine .single (.removeEdges fun key hk => ?_)
      obtain ⟨e, he, -, hp⟩ := Graph.mem_staleEdges.1 (hkeys key hk)
      exact ⟨e, he, spans_of_isScopedEdge hr hp⟩
    · have hmem : o ∈ s.allEdges :=
        List.mem_append_right _ (Option.mem_toList.2 (owner_of_scopingEdge ho))
      refine ⟨ht.staleEdges (fun hp => spans_of_isOwnership hmem hp)
        (fun {e} _ => ht.isOwnership hmem e), fun keys hkeys => ?_⟩
      refine .single (.removeEdges fun key hk => ?_)
      obtain ⟨e, he, -, hp⟩ := Graph.mem_staleEdges.1 (hkeys key hk)
      exact ⟨e, he, spans_of_isOwnership hmem hp⟩

theorem mirrors_paged {w : Sweep} (hw : w ∈ s.sweeps params tag) (hp : w.Paged size x keys u)
    (ht : s.Tracks σ x y) :
    ∃ v, w.Paged size y (keys.map σ) v ∧ s.Mirrors σ x y u v := by
  induction hp generalizing y with
  | done hnil =>
    refine ⟨y, .done ?_, .refl⟩
    rw [(ht.sweep hw).1, hnil, List.map_nil]
  | @page x keys u hne _ ih =>
    obtain ⟨htargets, hstrike⟩ := ht.sweep hw
    have hpage := hstrike ((w.targets x).take size) fun key hk => List.mem_of_mem_take hk
    obtain ⟨v, hrest, hm⟩ := ih (hpage.tracks ht)
    have htake : ((w.targets x).take size).map σ = (w.targets y).take size := by
      rw [htargets, List.map_take]
    have hmore : w.targets y ≠ [] := fun hnil =>
      hne (List.map_eq_nil_iff.1 (htargets.symm.trans hnil))
    refine ⟨v, ?_, hpage.trans hm⟩
    rw [htake] at hrest
    rw [List.map_append, htake]
    exact .page hmore hrest

theorem mirrors_run {ws : List Sweep} {n : Nat} (hws : ∀ w ∈ ws, w ∈ s.sweeps params tag)
    (hr : Sweep.Run size ws x n u) (ht : s.Tracks σ x y) :
    ∃ v, Sweep.Run size ws y n v ∧ s.Mirrors σ x y u v := by
  induction hr generalizing y with
  | nil => exact ⟨y, .nil y, .refl⟩
  | @cons w ws x mid u keys n first _ ih =>
    obtain ⟨hw, hrest⟩ := List.forall_mem_cons.1 hws
    obtain ⟨mid', hpaged, hm⟩ := mirrors_paged hw first ht
    obtain ⟨v, hrun, hm'⟩ := ih hrest (hm.tracks ht)
    have hlength : (keys.map σ).length = keys.length := List.length_map _
    exact ⟨v, hlength ▸ .cons hpaged hrun, hm.trans hm'⟩

/-- A cleanup does the same to both graphs, and counts the same. -/
theorem mirrors_cleanup {common : CommonParameters} {n : Nat} (ht : s.Tracks σ x y)
    (hrun : (Job.cleanup s common).run now x = (.ok n, u)) :
    ∃ v, (Job.cleanup s common).run now y = (.ok n, v) ∧ s.Mirrors σ x y u v := by
  obtain ⟨v, hr, hm⟩ := mirrors_run (fun _ hw => hw) (sweeps_of_run hrun) ht
  exact ⟨v, run_of_sweeps now (check_of_run hrun) hr, hm⟩

end NodeSchema

end GraphSync
