import GraphSync.Proofs.Load.Meeting
import GraphSync.Proofs.Ontology.Links

/-! Merging tells identities apart by their texts, and the graph by whether they agree. Where the
two differ, merged records are written to one node. -/
namespace GraphSync

namespace Ontology

variable {o : Ontology} {t : ConceptTable} {s : NodeSchema} {concept : String} {g h : Graph}
  {records merged : List Record}

theorem isSome_resolve_of_mem_merge (hs : t.SchemaOf s) (params : Parameters) :
    ∀ m ∈ Merge.merge t.concept.idField records, (s.properties.id.resolve m params).isSome = true :=
  List.filter_eq_self.1 (kept_merge hs records params)

/-- The nodes that a load of merged records writes are those that the records pick one by one. -/
theorem written_merge (hs : t.SchemaOf s) (config : LoaderConfig) (now tag : Int) :
    Load.written config now s (Merge.merge t.concept.idField records) .empty tag g =
      (Load.indexed s g).pickNodes now s.upsert (Load.baseParameters .empty tag)
        (Merge.merge t.concept.idField records) := by
  rw [Load.written_eq_pickNodes hs.readsNoBatch hs.edges, kept_merge hs]

/-- Merged records are written to a concept node each if and only if no two of their identities
meet in the graph. Each node then has the values of its record. A sync that collects the records
counts them and loads them, whether they meet or not. -/
theorem merged_apart_iff (config : LoaderConfig) (now tag : Int) (hg : g.WellFormed)
    (ht : o.table concept = .ok t) (hschema : o.nodeSchema concept = .ok s)
    (hmerged : Merge.merge t.concept.idField records = merged) :
    ∃ load h, Load.nodes config now s merged .empty tag g = (.ok load, h) ∧
      load.loaded = merged.length ∧
      (Load.written config now s merged .empty tag g).length = merged.length ∧
      ((Load.written config now s merged .empty tag g).Nodup ↔
        g.Apart t.concept.label (merged.filterMap (·.present t.concept.idField))) ∧
      ((Load.written config now s merged .empty tag g).Nodup → ∀ m ∈ merged,
        ∃ key ∈ Load.written config now s merged .empty tag g, ∃ n,
          h.nodes.find? key = some n ∧ n.get? Names.mark = some (.int tag) ∧
          ∀ field ∈ t.fields, field ≠ Names.id → field ≠ Names.mark →
            n.get? field = m.present field) ∧
      ∀ {modules mappings summary i}, modules.mapM (o.mapping concept) = .ok mappings →
        sourceRecords mappings g = records →
        o.run concept modules config now tag g = (.ok summary, i) →
          summary.merged = merged.length ∧ summary.load = load := by
  subst hmerged
  have hs := schemaOf_of_nodeSchema ht hschema
  have hlabel : s.upsert.label ∉ s.upsert.extraLabels := s.label_not_mem_extraLabels
  have hid : ∀ m ∈ Merge.merge t.concept.idField records,
      (s.upsert.properties.id.resolve m (Load.baseParameters .empty tag)).isSome = true :=
    isSome_resolve_of_mem_merge hs _
  have hids : s.upsert.identities (Load.baseParameters .empty tag)
      (Merge.merge t.concept.idField records) =
        (Merge.merge t.concept.idField records).filterMap (·.present t.concept.idField) :=
    List.filterMap_congr fun m _ => hs.resolve_id m _
  obtain ⟨load, h, hload⟩ := Load.nodes_of_check config now
    (Merge.merge t.concept.idField records) g (hs.check_load tag)
  have hnodes := (Load.batches_of_nodes hload).2
  rw [Load.batches_eq_putNodes hs.readsNoBatch hs.edges, Load.flatten_chunks, kept_merge hs]
    at hnodes
  refine ⟨load, h, hload, ?_, ?_, ?_, ?_, ?_⟩
  · rw [Load.loaded_of_nodes hload, kept_merge hs]
  · rw [written_merge hs, Graph.length_pickNodes hid]
  · rw [written_merge hs, Graph.nodup_pickNodes_iff (Load.wellFormed_indexed hg) hlabel hid, hids,
      ← hs.label]
    rfl
  · rw [written_merge hs]
    intro hnodup m hm
    obtain ⟨key, hkey, n, hn⟩ := Graph.exists_find?_of_nodup hid hnodup hm
    obtain ⟨hmark, hfields⟩ := hs.get?_update tag m n
    exact ⟨key, hkey, _, hnodes ▸ hn, hmark, hfields⟩
  · rintro modules mappings summary i hm rfl hrun
    obtain ⟨s', collected, load', mid, links, hschema', hcollect, hload', -, rfl⟩ :=
      run_eq_ok_iff.1 hrun
    cases hschema.symm.trans hschema'
    rw [collect_eq ht hm] at hcollect
    cases hcollect
    cases hload.symm.trans hload'
    exact ⟨rfl, rfl⟩

end Ontology

namespace Sample

/-- Users by number, of one module. -/
def numbered : ModuleMapping where
  name := "okta"
  nodes := [⟨"OktaUser", [⟨"uid", "uid", true, none⟩, ⟨"fullname", "name", false, none⟩], true⟩]
  links := []

def numberedUsers : ConceptTable where
  concept := ⟨"users", "User", "uid"⟩
  modules := .ofList [(numbered.name, numbered)]

def numberedOntology : Ontology := ⟨.ofList [("users", numberedUsers)]⟩

/-- Two users, one with the number 1 as a whole number and one with it as a double. -/
def ones : List Record :=
  [SortedMap.ofList [("uid", .int 1), ("fullname", .str "Ann")],
    SortedMap.ofList [("uid", .num (.double ⟨false, ⟨4503599627370496, -52⟩⟩)),
      ("fullname", .str "Bo")]]

/-- The numbers print differently, so the users are not merged. -/
theorem merge_ones : Merge.merge "uid" ones = ones := rfl

/-- The numbers are equal as values, so one finds what is created for the other. -/
theorem not_apart_ones : ¬ Graph.empty.Apart "User" (ones.filterMap (·.present "uid")) := by
  decide +kernel

end Sample

namespace Ontology

/-- Two users are merged and loaded, and one node is written for both. -/
theorem merged_apart_iff_of_sample : ∃ s load h,
    Sample.numberedOntology.nodeSchema "users" = .ok s ∧
    Load.nodes {} 5 s Sample.ones .empty 1 .empty = (.ok load, h) ∧ load.loaded = 2 ∧
    (Load.written {} 5 s Sample.ones .empty 1 .empty).length = 2 ∧
    ¬ (Load.written {} 5 s Sample.ones .empty 1 .empty).Nodup := by
  have htable : Sample.numberedOntology.table "users" = .ok Sample.numberedUsers := rfl
  obtain ⟨s, hschema⟩ : ∃ s, Sample.numberedOntology.nodeSchema "users" = .ok s := ⟨_, rfl⟩
  obtain ⟨load, h, hload, hcount, hlength, hnodup, -⟩ := merged_apart_iff {} 5 1
    Graph.Reachable.empty.wellFormed htable hschema Sample.merge_ones
  exact ⟨s, load, h, hschema, hload, hcount, hlength, fun hdistinct =>
    Sample.not_apart_ones (hnodup.1 hdistinct)⟩

end Ontology

end GraphSync
