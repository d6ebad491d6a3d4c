import GraphSync.Proofs.Load.Owned
import GraphSync.Proofs.Ontology.Links

/-! A sync that is run again: nothing that it writes is among what it reads, so it collects the same
records, finds every node and every edge, and leaves them as they are. -/
namespace GraphSync

/-! Numbers in range are projected to numbers in range. -/

/-- A fixed value is in range. -/
def Handling.InRange : Handling → Prop
  | staticValue value => value.InRange
  | _ => True

/-- The fixed values of a module's mappings are in range. -/
def ModuleMapping.InRange (m : ModuleMapping) : Prop :=
  ∀ n ∈ m.nodes, ∀ f ∈ n.fields, ∀ handling ∈ f.handling, handling.InRange

/-- The properties of every node are in range. -/
def Graph.InRange (g : Graph) : Prop :=
  ∀ key n, g.nodes.find? key = some n → Record.InRange n.properties

instance : DecidablePred Handling.InRange
  | .staticValue value => inferInstanceAs (Decidable value.InRange)
  | .toBoolean | .invertBoolean | .orBoolean _ | .norBoolean _ | .equalBoolean _ => .isTrue trivial

instance (m : ModuleMapping) : Decidable m.InRange :=
  inferInstanceAs (Decidable (∀ n ∈ m.nodes, ∀ f ∈ n.fields, ∀ handling ∈ f.handling, _))

instance (g : Graph) : Decidable g.InRange :=
  decidable_of_iff (∀ x ∈ g.nodes.entries, Record.InRange x.2.properties)
    ⟨fun h key n hn => h (key, n) (SortedMap.find?_eq_some_iff.1 hn),
      fun h x hx => h x.1 x.2 (SortedMap.find?_eq_some_iff.2 hx)⟩

section Range

variable {node projected r : Record} {fields : List FieldMapping} {handling : Handling}
  {field : String}

theorem Handling.inRange_apply (hh : handling.InRange) : (handling.apply node field).InRange := by
  cases handling with
  | staticValue value => exact hh
  | toBoolean =>
    rw [apply]
    split <;> trivial
  | invertBoolean =>
    rw [apply]
    split <;> trivial
  | orBoolean extraFields => trivial
  | norBoolean extraFields => trivial
  | equalBoolean accepted => trivial

theorem FieldMapping.inRange_project {m : FieldMapping} (hn : node.InRange)
    (hm : ∀ handling ∈ m.handling, handling.InRange) : (m.project node).InRange := by
  rw [project]
  cases hh : m.handling with
  | some handling => exact Handling.inRange_apply (hm handling hh)
  | none =>
    cases hv : node.find? m.nodeField with
    | none => trivial
    | some v => exact hn m.nodeField v hv

theorem NodeMapping.inRange_projectFields (hn : node.InRange)
    (hfields : ∀ f ∈ fields, ∀ handling ∈ f.handling, handling.InRange)
    (hprojected : projected.InRange) (hr : projectFields node fields projected = some r) :
    r.InRange := by
  induction fields generalizing projected with
  | nil =>
    cases hr
    exact hprojected
  | cons f rest ih =>
    obtain ⟨hfirst, hothers⟩ := List.forall_mem_cons.1 hfields
    rw [projectFields] at hr
    split at hr
    · cases hr
    · exact ih hothers
        (Parameters.inRange_insert hprojected (FieldMapping.inRange_project hn hfirst)) hr

end Range

namespace Ontology

variable {o : Ontology} {t : ConceptTable} {concept : String} {modules : List String}
  {mappings : List ModuleMapping} {g h mid : Graph} {now later tag : Int} {config : LoaderConfig}
  {summary : OntologySummary} {n : Nat}

theorem inRange_of_mem_sourceRecords (hg : g.InRange) (hm : ∀ m ∈ mappings, m.InRange)
    {r : Record} (hr : r ∈ sourceRecords mappings g) : r.InRange := by
  obtain ⟨m, hmem, hr⟩ := List.mem_flatMap.1 hr
  obtain ⟨n, hn, hr⟩ := List.mem_flatMap.1 hr
  obtain ⟨node, hnode, hr⟩ := List.mem_filterMap.1 hr
  obtain ⟨⟨key, stored⟩, hstored, rfl⟩ := List.mem_map.1 hnode
  have hempty : Record.InRange .empty := fun _ _ hv => nomatch hv
  exact NodeMapping.inRange_projectFields (hg key stored (Graph.mem_labelled.1 hstored).1)
    (hm m hmem n (List.mem_filter.1 hn).1) hempty hr

end Ontology

namespace Load

variable {g h mid : Graph} {now tag : Int} {s : NodeSchema} {base params : Parameters}
  {records : List Record} {cs : List (List Record)} {config : LoaderConfig}
  {summary : LoadSummary}

theorem edgeCount_of_no_edges (he : s.allEdges = []) : edgeCount now s base g cs = 0 := by
  induction cs generalizing g with
  | nil => rfl
  | cons c cs ih =>
    rw [edgeCount, ih, Graph.rowCounts, he]
    rfl

/-- A load without edges leaves its own nodes as they are, whatever edges were added to them. -/
theorem nodes_again (later : Int) (hs : s.ReadsNoBatch) (he : s.allEdges = [])
    (hg : g.WellFormed) (hh : h.WellFormed)
    (hid : ∀ r ∈ kept s records params, ∃ id,
      s.properties.id.resolve r (baseParameters params tag) = some id ∧ id.agrees id = true)
    (hload : Load.nodes config now s records params tag g = (.ok summary, mid))
    (hn : h.nodes = mid.nodes) (hi : h.indexes = mid.indexes) :
    Load.nodes config later s records params tag h = (.ok summary, h) := by
  obtain ⟨hcheck, rfl⟩ := batches_of_nodes hload
  have hindexed : indexed s h = h := indexed_of_indexes (hi.trans indexes_batches)
  have hput : h.putNodes later s (baseParameters params tag) (kept s records params) = h := by
    rw [batches_eq_putNodes hs he, flatten_chunks] at hn
    exact Graph.putNodes_of_nodes_eq later (wellFormed_indexed hg) hh hn hid
  rw [nodes_eq, forM_check_eq_ok_iff.2 hcheck] at hload ⊢
  obtain ⟨hsummary, -⟩ := Prod.mk.inj hload
  simp only [edgeCount_of_no_edges he, hindexed] at hsummary ⊢
  rw [← Except.ok.inj hsummary, batches_eq_putNodes hs he, flatten_chunks, hput]

end Load

namespace Ontology

variable {o : Ontology} {t : ConceptTable} {concept : String} {modules : List String}
  {mappings : List ModuleMapping} {g h mid : Graph} {now later tag : Int} {config : LoaderConfig}
  {summary : OntologySummary} {s : NodeSchema} {load : LoadSummary} {n : Nat}

/-- Links that are run again find the joints that they marked. -/
theorem runModules_again (later : Int) (hm : modules.mapM (o.mapping concept) = .ok mappings)
    (hmid : mid.WellFormed)
    (hlinks : o.runModules concept now (CommonParameters.ofTag tag).toParameters modules mid =
      (.ok n, h)) :
    h.WellFormed ∧ h.indexes = mid.indexes ∧
      o.runModules concept later (CommonParameters.ofTag tag).toParameters modules h =
        (.ok n, h) := by
  have hends : ∀ p ∈ LinkQuery.reached mid (queries mappings), mid.HasEnds p.2 :=
    fun _ hp => LinkQuery.hasEnds_of_mem_flatMap hp
  rw [runModules_eq _ _ hm] at hlinks ⊢
  obtain ⟨hcount, rfl⟩ := Prod.mk.inj hlinks
  rw [LinkQuery.reached_congr Graph.nodes_markJoints]
  refine ⟨hmid.markJoints hends, Graph.indexes_markJoints, Prod.ext ?_ ?_⟩
  · exact hcount
  · exact Graph.markJoints_markJoints hmid hends

/-- A sync writes no node that it reads. -/
theorem sourceRecords_of_load (hs : t.SchemaOf s) (hg : g.WellFormed) {records : List Record}
    (hapart : ∀ m ∈ mappings, ∀ n ∈ m.nodes, n.eligible = true →
      n.nodeLabel ≠ t.concept.label ∧ g.LabelsApart t.concept.label n.nodeLabel)
    (hload : Load.nodes config now s records .empty tag g = (.ok load, mid))
    (hn : h.nodes = mid.nodes) : sourceRecords mappings h = sourceRecords mappings g := by
  obtain ⟨-, rfl⟩ := Load.batches_of_nodes hload
  rw [Load.batches_eq_putNodes hs.readsNoBatch hs.edges] at hn
  refine List.flatMap_congr fun m hm => List.flatMap_congr fun n hmem => ?_
  obtain ⟨hnode, heligible⟩ := List.mem_filter.1 hmem
  obtain ⟨hne, hlabels⟩ := hapart m hm n hnode heligible
  have hlabel : n.nodeLabel ∉ s.labels := by
    rw [NodeSchema.labels, hs.extraLabels, hs.label, List.mem_singleton]
    exact hne
  have hsame : h.labelled n.nodeLabel = g.labelled n.nodeLabel :=
    (Graph.labelled_congr hn _).trans
      (Graph.labelled_putNodes (Load.wellFormed_indexed hg) (hs.label ▸ hlabels) hlabel)
  rw [Graph.nodeRecords, Graph.nodeRecords, hsame]

/-- A sync that succeeds can be run again at any time, with the same summary and without any change
to the graph, if no node has both the concept's label and a label that the sync reads. -/
theorem run_again (later : Int) (hg : g.WellFormed) (ht : o.table concept = .ok t)
    (hm : modules.mapM (o.mapping concept) = .ok mappings)
    (hapart : ∀ m ∈ mappings, ∀ n ∈ m.nodes, n.eligible = true →
      n.nodeLabel ≠ t.concept.label ∧ g.LabelsApart t.concept.label n.nodeLabel)
    (hrange : g.InRange) (hvalues : ∀ m ∈ mappings, m.InRange)
    (hrun : o.run concept modules config now tag g = (.ok summary, h)) :
    o.run concept modules config later tag h = (.ok summary, h) := by
  obtain ⟨s, merged, load, mid, links, hschema, hcollect, hload, hlinks, rfl⟩ :=
    run_eq_ok_iff.1 hrun
  have hs := schemaOf_of_nodeSchema ht hschema
  have hmid : mid.WellFormed := Load.wellFormed_of_nodes hg hload
  have hnodes : h.nodes = mid.nodes := nodes_of_runModules hlinks
  obtain ⟨hh, hindexes, hagain⟩ := runModules_again later hm hmid hlinks
  have hsource : sourceRecords mappings h = sourceRecords mappings g :=
    sourceRecords_of_load hs hg hapart hload hnodes
  have hcollected : o.collect concept modules h = .ok merged := by
    rw [collect_eq ht hm, hsource, ← collect_eq ht hm, hcollect]
  rw [collect_eq ht hm] at hcollect
  obtain rfl := Except.ok.inj hcollect
  have hid : ∀ m ∈ Load.kept s (Merge.merge t.concept.idField (sourceRecords mappings g)) .empty,
      ∃ id, s.properties.id.resolve m (Load.baseParameters .empty tag) = some id ∧
        id.agrees id = true := by
    intro m hmem
    obtain ⟨r, hr, id, hrid, hmid⟩ :=
      Merge.identified_merge t.concept.idField _ m (List.mem_filter.1 hmem).1
    have hr : r.InRange := inRange_of_mem_sourceRecords hrange hvalues hr
    exact ⟨id, (hs.resolve_id m _).trans hmid, Record.agrees_self_of_present hr hrid⟩
  have hreload := Load.nodes_again later hs.readsNoBatch hs.edges hg hh hid hload hnodes
    hindexes
  exact run_eq_ok_iff.2 ⟨s, _, load, h, links, hschema, hcollected, hreload, hagain, rfl⟩

/-- Users are collected from two modules and linked to their accounts, twice. -/
theorem run_again_of_sample : ∃ summary h,
    Sample.linkedOntology.run "users" ["okta", "github"] {} 5 2 Sample.accounts =
      (.ok summary, h) ∧
    Sample.linkedOntology.run "users" ["okta", "github"] {} 8 2 h = (.ok summary, h) := by
  have htable : Sample.linkedOntology.table "users" = .ok Sample.linkedUsers := rfl
  have hmappings : ["okta", "github"].mapM (Sample.linkedOntology.mapping "users") =
      .ok [Sample.linkedOkta, Sample.linkedGithub] := rfl
  obtain ⟨s, hschema⟩ : ∃ s, Sample.linkedOntology.nodeSchema "users" = .ok s := ⟨_, rfl⟩
  obtain ⟨_, hrun⟩ := exists_run {} 5 2 Sample.accounts htable hschema hmappings
    Sample.fault?_linked
  exact ⟨_, _, hrun, run_again 8 Sample.reachable_accounts.wellFormed htable hmappings
    (by decide) (by decide) (by decide) hrun⟩

end Ontology

end GraphSync
