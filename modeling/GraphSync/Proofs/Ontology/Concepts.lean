import GraphSync.Ontology.Sync
import GraphSync.Proofs.Load.Distinct
import GraphSync.Proofs.Ontology.Merged

/-! A sync of a concept gives each identity a node with the first value of every field, and leaves
all other nodes alone. -/
namespace GraphSync

namespace ConceptTable

variable {t : ConceptTable} {s : NodeSchema} {name : String}

/-- Fields are added once each, as references to themselves, unless their names are taken. -/
theorem ref?_foldl (fields : List String) (m : Mapping) :
    Mapping.ref? (fields.foldl (fun (m : Mapping) f =>
        if f ∈ m.names then m else m ++ [(f, PropertyRef.field f)]) m) name =
      (m.ref? name).or (if name ∈ fields then some (.field name) else none) := by
  induction fields generalizing m with
  | nil => simp
  | cons f rest ih =>
    rw [List.foldl_cons, ih]
    by_cases hf : f ∈ m.names
    · rw [if_pos hf]
      by_cases hname : name = f
      · obtain ⟨r, hr⟩ := Option.isSome_iff_exists.1 (m.ref?_isSome hf)
        rw [hname, hr, Option.some_or, Option.some_or]
      · simp [hname]
    · rw [if_neg hf, Mapping.ref?_append, Option.or_assoc, Mapping.ref?_cons]
      by_cases hname : f = name
      · simp [hname]
      · simp [hname, Ne.symm hname, Mapping.ref?]

theorem ref?_entries : t.entries.ref? name =
    if name = Names.id then some (.field t.concept.idField)
    else if name = Names.mark then some (.batch Names.loadTag)
    else if name ∈ t.fields then some (.field name) else none := by
  rw [entries, ref?_foldl, Mapping.ref?_cons, Mapping.ref?_cons]
  by_cases hid : name = Names.id
  · simp [hid]
  · by_cases hmark : name = Names.mark
    · simp [hmark, show Names.id ≠ Names.mark by decide, show Names.mark ≠ Names.id by decide]
    · simp [hid, hmark, Ne.symm hid, Ne.symm hmark, Mapping.ref?]

/-- Every value of a concept node is a field of its record, or the tag. -/
theorem eq_of_ref?_entries {r : PropertyRef} (hr : t.entries.ref? name = some r) :
    (∃ f, r = .field f) ∨ r = .batch Names.loadTag := by
  rw [ref?_entries] at hr
  split at hr
  · exact .inl ⟨_, (Option.some.inj hr).symm⟩
  · split at hr
    · exact .inr (Option.some.inj hr).symm
    · split at hr
      · exact .inl ⟨_, (Option.some.inj hr).symm⟩
      · cases hr

/-- The schema of a concept has the concept's label and fields, no other label and no edges. -/
structure SchemaOf (t : ConceptTable) (s : NodeSchema) : Prop where
  label : s.label = t.concept.label
  extraLabels : s.extraLabels = []
  mapping : s.properties.mapping = t.entries
  edges : s.allEdges = []

theorem schemaOf_of_ok (hs : t.nodeSchema = .ok s) : t.SchemaOf s := by
  obtain ⟨p, hp, hs⟩ := bind_eq_ok_iff.1 hs
  have hplan := NodePlan.build_eq_ok_iff.1 hs
  refine ⟨?_, ?_, ?_, ?_⟩
  · rw [hplan]
  · rw [hplan]
  · rw [hplan]
    exact NodeProperties.ofMapping_eq_ok_iff.1 hp
  · rw [NodeSchema.allEdges, hplan]
    rfl

namespace SchemaOf

theorem id_eq (hs : t.SchemaOf s) : s.properties.id = .field t.concept.idField := by
  refine (NodeProperties.eq_id ?_).symm
  rw [hs.mapping]
  exact Mapping.mem_of_ref? (by rw [ref?_entries, if_pos rfl])

theorem resolve_id (hs : t.SchemaOf s) (r : Record) (params : Parameters) :
    s.properties.id.resolve r params = r.present t.concept.idField := by
  rw [hs.id_eq]
  rfl

/-- The tag is all that is read beside the records. -/
theorem name_eq_loadTag (hs : t.SchemaOf s) {ref : PropertyRef} (hr : ref ∈ s.references)
    (hbatch : ref.source = .batchParameter) : ref.name = Names.loadTag := by
  have hdistinct := s.properties.wellFormed.distinct
  rw [NodeSchema.references, hs.edges, List.flatMap_nil, List.append_nil] at hr
  obtain ⟨e, he, rfl⟩ := List.mem_map.1 hr
  have href := Mapping.ref?_of_mem hdistinct he
  rw [hs.mapping] at href
  rcases eq_of_ref?_entries href with ⟨f, hfield⟩ | htag
  · rw [hfield] at hbatch
    cases hbatch
  · rw [htag]
    rfl

theorem readsNoBatch (hs : t.SchemaOf s) : s.ReadsNoBatch := by
  intro ref hr hbatch
  rw [hs.name_eq_loadTag hr hbatch]
  decide

/-- A load of concept nodes needs no parameters. -/
theorem check_load (hs : t.SchemaOf s) (tag : Int) : ∀ st ∈ s.loadStatements,
    BoundStatement.check ⟨st, Load.baseParameters .empty tag⟩ = .ok () := by
  refine Load.forall_check_iff.2 fun ref hr hbatch => ?_
  rw [hs.name_eq_loadTag hr hbatch, Load.baseParameters, SortedMap.contains_insert,
    SortedMap.contains_insert, decide_eq_true rfl, Bool.true_or, Bool.or_true]

/-- What a record makes of its concept node: the tag, and every field of the record. -/
theorem get?_update (hs : t.SchemaOf s) (tag : Int) (r : Record) (n : Node) :
    (s.upsert.update (Load.baseParameters .empty tag) r n).get? Names.mark = some (.int tag) ∧
      ∀ field ∈ t.fields, field ≠ Names.id → field ≠ Names.mark →
        (s.upsert.update (Load.baseParameters .empty tag) r n).get? field = r.present field := by
  have hmapping : s.upsert.properties.mapping = t.entries := hs.mapping
  constructor
  · rw [NodeUpsert.get?_update, if_neg (by decide), hmapping, ref?_entries, if_neg (by decide),
      if_pos rfl]
    rfl
  · intro field hfield hid hmark
    rw [NodeUpsert.get?_update, if_neg hid, hmapping, ref?_entries, if_neg hid, if_neg hmark,
      if_pos hfield]
    rfl

end SchemaOf

end ConceptTable

namespace Merge.Merges

variable {t : ConceptTable} {s : NodeSchema} {records merged : List Record}

/-- Every merged record has an identity. -/
theorem kept_eq (hm : Merges t.concept.idField records merged) (hs : t.SchemaOf s)
    (params : Parameters) : Load.kept s merged params = merged := by
  refine List.filter_eq_self.2 fun m hmem => ?_
  obtain ⟨x, hx⟩ := hm.identified m hmem
  rw [hs.resolve_id, text?_eq_some_iff.1 hx]
  rfl

theorem distinctTexts (hm : Merges t.concept.idField records merged) (hs : t.SchemaOf s)
    (params : Parameters) : Graph.DistinctTexts s params merged := by
  refine ⟨?_, fun m hmem => ?_⟩
  · have hdistinct := hm.distinct
    have hmap : merged.map (text? t.concept.idField) =
        (merged.map (s.properties.id.resolve · params)).map (·.bind Json.text?) := by
      rw [List.map_map]
      exact List.map_congr_left fun m _ => by rw [Function.comp, hs.resolve_id, text?]
    rw [hmap] at hdistinct
    exact hdistinct.of_map _
  · obtain ⟨x, hx⟩ := hm.identified m hmem
    exact ⟨x, (hs.resolve_id m params).trans (text?_eq_some_iff.1 hx)⟩

end Merge.Merges

namespace Sample

/-- Users with a name, which some of them lack. -/
def okta : ModuleMapping where
  name := "okta"
  nodes := [⟨"OktaUser",
    [⟨"email", "email", true, none⟩, ⟨"fullname", "name", false, none⟩], true⟩]
  links := []

/-- Users with a name and one more field. -/
def github : ModuleMapping where
  name := "github"
  nodes := [⟨"GitHubUser",
    [⟨"email", "email", true, none⟩, ⟨"fullname", "name", false, none⟩,
      ⟨"username", "login", false, none⟩], true⟩]
  links := []

def users : ConceptTable where
  concept := ⟨"users", "User", "email"⟩
  modules := .ofList [(okta.name, okta), (github.name, github)]

def ontology : Ontology := ⟨.ofList [("users", users)]⟩

/-- An account of the same user at each of the two, and another user. -/
def accounts : Graph :=
  ((Graph.empty.addNode ⟨.ofKeys ["OktaUser"], .ofList [("email", .str "a")]⟩).addNode
    ⟨.ofKeys ["GitHubUser"],
      .ofList [("email", .str "a"), ("name", .str "Ada"), ("login", .str "ada")]⟩).addNode
    (node "User" "b" 1)

theorem reachable_accounts : accounts.Reachable := .seed _ _ (.seed _ _ (.seed _ _ .empty))

end Sample

namespace Ontology

open Merge (Textual identities first? text?)

variable {o : Ontology} {t : ConceptTable} {concept : String} {modules : List String}
  {mappings : List ModuleMapping} {g h : Graph} {now tag : Int} {params : Parameters}
  {config : LoaderConfig} {summary : OntologySummary}

theorem nodes_of_runLink {q : LinkQuery} {n : Nat}
    (hrun : (JobStatement.once q.statement params).run now g = (.ok n, h)) :
    h.nodes = g.nodes := by
  obtain ⟨affected, mid, hstatement, hlast⟩ := GraphM.bind_eq_ok_iff.1 hrun
  cases hlast
  obtain ⟨-, last, count, others, happly, hrest, -⟩ :=
    Graph.execute_cons_eq_ok_iff.1 (GraphM.transact_eq_ok_iff.1 hstatement)
  cases hrest
  cases q with
  | link l => exact Graph.nodes_of_linkByProperty happly
  | raw text => cases happly

theorem nodes_of_runLinks {links : List LinkMapping} {n : Nat}
    (hrun : Job.runAll now (links.map fun l => JobStatement.once l.query.statement params) g =
      (.ok n, h)) : h.nodes = g.nodes := by
  induction links generalizing g n with
  | nil =>
    cases hrun
    rfl
  | cons l rest ih =>
    obtain ⟨affected, mid, hfirst, hothers⟩ := GraphM.bind_eq_ok_iff.1 hrun
    obtain ⟨others, last, hrest, hlast⟩ := GraphM.bind_eq_ok_iff.1 hothers
    cases hlast
    exact (ih hrest).trans (nodes_of_runLink hfirst)

/-- The links of the modules change no node. -/
theorem nodes_of_runModules {n : Nat}
    (hrun : o.runModules concept now params modules g = (.ok n, h)) : h.nodes = g.nodes := by
  induction modules generalizing g n with
  | nil =>
    cases hrun
    rfl
  | cons name rest ih =>
    obtain ⟨m, mid, hmapping, hmodule⟩ := GraphM.bind_eq_ok_iff.1 hrun
    obtain ⟨-, rfl⟩ := GraphM.ofExcept_eq_ok_iff.1 hmapping
    obtain ⟨affected, linked, hlinks, hothers⟩ := GraphM.bind_eq_ok_iff.1 hmodule
    obtain ⟨others, last, hrest, hlast⟩ := GraphM.bind_eq_ok_iff.1 hothers
    cases hlast
    exact (ih hrest).trans (nodes_of_runLinks (GraphM.mapError_eq_ok_iff.1 hlinks))

/-- A sync that succeeds has loaded the records that it collected, then run the links. -/
theorem run_eq_ok_iff : o.run concept modules config now tag g = (.ok summary, h) ↔
    ∃ s records load mid links, o.nodeSchema concept = .ok s ∧
      o.collect concept modules g = .ok records ∧
      Load.nodes config now s records .empty tag g = (.ok load, mid) ∧
      o.runModules concept now (CommonParameters.ofTag tag).toParameters modules mid =
        (.ok links, h) ∧ summary = ⟨records.length, load, links⟩ := by
  rw [run]
  simp only [GraphM.bind_eq_ok_iff, GraphM.ofExcept_eq_ok_iff, GraphM.mapError_eq_ok_iff]
  constructor
  · rintro ⟨s, _, ⟨hs, rfl⟩, start, _, hget, records, _, ⟨hrecords, rfl⟩, load, mid, hload, links,
      last, hlinks, hlast⟩
    cases hget
    cases hlast
    exact ⟨s, records, load, mid, links, hs, hrecords, hload, hlinks, rfl⟩
  · rintro ⟨s, records, load, mid, links, hs, hrecords, hload, hlinks, rfl⟩
    exact ⟨s, g, ⟨hs, rfl⟩, g, g, rfl, records, g, ⟨hrecords, rfl⟩, load, mid, hload, links, h,
      hlinks, rfl⟩

theorem schemaOf_of_nodeSchema {s : NodeSchema} (ht : o.table concept = .ok t)
    (hs : o.nodeSchema concept = .ok s) : t.SchemaOf s := by
  rw [nodeSchema, ht] at hs
  change t.nodeSchema.mapError OntologyError.schema = .ok s at hs
  cases hschema : t.nodeSchema with
  | error e =>
    rw [hschema] at hs
    cases hs
  | ok p =>
    rw [hschema] at hs
    cases hs
    exact ConceptTable.schemaOf_of_ok hschema

/-- What the mappings of several modules make of the stored nodes, module by module. -/
def sourceRecords (mappings : List ModuleMapping) (g : Graph) : List Record :=
  mappings.flatMap (projected · g)

theorem collect_eq (ht : o.table concept = .ok t)
    (hm : modules.mapM (o.mapping concept) = .ok mappings) (g : Graph) :
    o.collect concept modules g =
      .ok (Merge.merge t.concept.idField (sourceRecords mappings g)) := by
  rw [collect, Ontology.concept, ht, hm]
  rfl

/-- A sync that succeeds leaves one node to each identity that the stored nodes are projected to:
it is marked and has the first value of every field, among the records of its identity in the
order of modules, mappings and stored nodes. All other nodes are as before, and as many records
are merged and loaded as there are identities. -/
theorem concepts_of_run (hg : g.WellFormed) (ht : o.table concept = .ok t)
    (hm : modules.mapM (o.mapping concept) = .ok mappings)
    (htext : Textual t.concept.idField (sourceRecords mappings g))
    (hrun : o.run concept modules config now tag g = (.ok summary, h)) :
    (∀ x ∈ identities t.concept.idField (sourceRecords mappings g), ∃ key n,
      h.findNode t.concept.label (.str x) = some key ∧ h.nodes.find? key = some n ∧
      n.get? Names.mark = some (.int tag) ∧
      ∀ field ∈ t.fields, field ≠ Names.id → field ≠ Names.mark →
        n.get? field = first? t.concept.idField x field (sourceRecords mappings g)) ∧
    summary.merged = (identities t.concept.idField (sourceRecords mappings g)).length ∧
    summary.load.loaded =
      (identities t.concept.idField (sourceRecords mappings g)).length ∧
    ∀ key n, (n.hasLabel t.concept.label = true →
        ∀ x ∈ identities t.concept.idField (sourceRecords mappings g),
          n.get? Names.id ≠ some (.str x)) →
      (h.nodes.find? key = some n ↔ g.nodes.find? key = some n) := by
  obtain ⟨s, merged, load, mid, links, hschema, hcollect, hload, hlinks, rfl⟩ :=
    run_eq_ok_iff.1 hrun
  have hs := schemaOf_of_nodeSchema ht hschema
  rw [collect_eq ht hm] at hcollect
  obtain rfl := Except.ok.inj hcollect
  have hmerges := Merge.merges_merge htext
  have hnodes : h.nodes = mid.nodes := nodes_of_runModules hlinks
  have hkept := hmerges.kept_eq hs .empty
  obtain ⟨hwritten, hothers⟩ := Load.nodes_of_distinctTexts hs.readsNoBatch hs.edges hg
    (hkept.symm ▸ hmerges.distinctTexts hs _) hload
  rw [hkept] at hwritten hothers
  have hlength := hmerges.length_eq
  refine ⟨fun x hx => ?_, hlength, ?_, fun key n hapart => ?_⟩
  · obtain ⟨m, hm, hmx⟩ := (hmerges.complete x).2 (Merge.mem_identities.1 hx)
    obtain ⟨key, n, hfind, hn⟩ := hwritten m hm x
      ((hs.resolve_id m _).trans (Merge.text?_eq_some_iff.1 hmx))
    rw [← Graph.findNode_congr hnodes, hs.label] at hfind
    obtain ⟨hmark, hfields⟩ := hs.get?_update tag m n
    refine ⟨key, _, hfind, hnodes ▸ hn, hmark, fun field hfield hid hother => ?_⟩
    rw [hfields field hfield hid hother, hmerges.first m hm x hmx]
  · rw [Load.loaded_of_nodes hload, hkept, hlength]
  · rw [hnodes]
    refine hothers key n fun hl m hm id hid => ?_
    obtain ⟨x, hx⟩ := hmerges.identified m hm
    rw [hs.resolve_id, Merge.text?_eq_some_iff.1 hx] at hid
    cases hid
    refine Bool.eq_false_iff.2 fun hsame => ?_
    have hmem := Merge.mem_identities.2 ((hmerges.complete x).1 ⟨m, hm, hx⟩)
    exact hapart (hs.label ▸ hl) x hmem (Node.identifiedBy_str_iff.1 hsame)

/-- A user is known to two modules, and what the first of them lacks is taken from the second. -/
theorem concepts_of_run_sample : ∃ summary h key n,
    Sample.ontology.run "users" ["okta", "github"] {} 5 2 Sample.accounts = (.ok summary, h) ∧
      summary.merged = 1 ∧ h.findNode "User" (.str "a") = some key ∧
      h.nodes.find? key = some n ∧ n.get? Names.mark = some (.int 2) ∧
      n.get? "fullname" = some (.str "Ada") ∧ n.get? "username" = some (.str "ada") ∧
      h.nodes.find? 3 = some (Sample.node "User" "b" 1) := by
  have htable : Sample.ontology.table "users" = .ok Sample.users := rfl
  have hmappings : ["okta", "github"].mapM (Sample.ontology.mapping "users") =
      .ok [Sample.okta, Sample.github] := rfl
  obtain ⟨s, hschema⟩ : ∃ s, Sample.ontology.nodeSchema "users" = .ok s := ⟨_, rfl⟩
  have htext : Textual "email" (sourceRecords [Sample.okta, Sample.github] Sample.accounts) := by
    intro r hr v hv
    rcases List.mem_cons.1 hr with rfl | hr
    · exact ⟨_, (Option.some.inj hv).symm⟩
    · obtain rfl := List.mem_singleton.1 hr
      exact ⟨_, (Option.some.inj hv).symm⟩
  have hids : identities "email" (sourceRecords [Sample.okta, Sample.github] Sample.accounts) =
      ["a"] := by decide
  have hs := schemaOf_of_nodeSchema htable hschema
  have hcollect := collect_eq htable hmappings Sample.accounts
  obtain ⟨load, mid, hload⟩ := Load.nodes_of_check {} 5
    (Merge.merge "email" (sourceRecords [Sample.okta, Sample.github] Sample.accounts))
    Sample.accounts (hs.check_load 2)
  have hrun := run_eq_ok_iff.2 ⟨s, _, load, mid, 0, hschema, hcollect, hload, rfl, rfl⟩
  obtain ⟨hconcept, hmerged, -, hothers⟩ := concepts_of_run Sample.reachable_accounts.wellFormed
    htable hmappings htext hrun
  rw [show Sample.users.concept.idField = "email" from rfl, hids] at hconcept hmerged hothers
  obtain ⟨key, n, hfind, hn, hmark, hfields⟩ := hconcept "a" List.mem_cons_self
  refine ⟨_, mid, key, n, hrun, hmerged, hfind, hn, hmark, ?_, ?_, ?_⟩
  · exact hfields "fullname" (by decide) (by decide) (by decide)
  · exact hfields "username" (by decide) (by decide) (by decide)
  · have hother : ∀ x ∈ ["a"], (Sample.node "User" "b" 1).get? Names.id ≠ some (.str x) :=
      List.forall_mem_singleton.2 fun he =>
        absurd (Json.str.inj (Option.some.inj he)) (by decide)
    exact (hothers 3 _ fun _ => hother).2 rfl

end Ontology

end GraphSync
