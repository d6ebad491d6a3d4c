import Mathlib.Data.List.Nodup
import GraphSync.Proofs.Statement.Texts

/-! A schema names the parameters of its statements, and those are all that a check asks for. -/
namespace GraphSync

variable {name : String}

theorem Mapping.ref?_of_mem {m : Mapping} (hd : m.names.Nodup) {e : String × PropertyRef}
    (he : e ∈ m) : m.ref? e.1 = some e.2 := by
  obtain ⟨r, hr⟩ := Option.isSome_iff_exists.1 (m.ref?_isSome (List.mem_map_of_mem he))
  have hpair := List.inj_on_of_nodup_map hd (Mapping.mem_of_ref? hr) he rfl
  rw [hr, ← hpair]

/-- Of a name that is there once, the reference is the one of its entry. -/
theorem Mapping.ref?_eq_some_iff {m : Mapping} {r : PropertyRef} (hm : m.names.Nodup) :
    m.ref? name = some r ↔ (name, r) ∈ m := ⟨mem_of_ref?, ref?_of_mem hm⟩

theorem NodeProperties.eq_id {p : NodeProperties} {r : PropertyRef}
    (h : (Names.id, r) ∈ p.mapping) : r = p.id := by
  have hr := Mapping.ref?_of_mem p.wellFormed.distinct h
  exact Option.some.inj (hr.symm.trans (Mapping.ref?_of_mem p.wellFormed.distinct p.id_mem))

/-- Identity and assignments are the whole mapping. -/
theorem NodeProperties.mem_batchNames {p : NodeProperties} :
    name ∈ p.id.batchNames ++ p.assigned.batchNames ↔ name ∈ p.mapping.batchNames := by
  rw [List.mem_append, Mapping.mem_batchNames, Mapping.mem_batchNames]
  constructor
  · rintro (h | ⟨e, he, h⟩)
    · exact ⟨_, p.id_mem, h⟩
    · exact ⟨e, (List.mem_filter.1 he).1, h⟩
  · rintro ⟨⟨key, r⟩, he, h⟩
    by_cases hkey : key = Names.id
    · subst hkey
      exact .inl (p.eq_id he ▸ h)
    · exact .inr ⟨(key, r), List.mem_filter.2 ⟨he, bne_iff_ne.2 hkey⟩, h⟩

/-- No two properties are matched element by element. -/
theorem Matcher.eq_oneToMany {m : Matcher} {e : String × PropertyRef} (he : e ∈ m.mapping)
    (hmany : e.2.isOneToMany = true) : m.oneToMany? = some e := by
  obtain ⟨f, hf⟩ : ∃ f, m.oneToMany? = some f := by
    rw [← Option.isSome_iff_exists, oneToMany?, List.find?_isSome]
    exact ⟨e, he, hmany⟩
  have hfound : f.2.isOneToMany = true :=
    List.find?_some (p := fun e : String × PropertyRef => e.2.isOneToMany) hf
  have hfind : f ∈ m.mapping.filter (·.2.isOneToMany) :=
    List.mem_filter.2 ⟨List.mem_of_find?_eq_some hf, hfound⟩
  have hmem : e ∈ m.mapping.filter (·.2.isOneToMany) := List.mem_filter.2 ⟨he, hmany⟩
  have hlength : (m.mapping.filter (·.2.isOneToMany)).length ≤ 1 :=
    List.countP_eq_length_filter ▸ m.single
  obtain ⟨g, hg⟩ := List.length_eq_one_iff.1
    (Nat.le_antisymm hlength (List.length_pos_of_mem hmem))
  rw [hg, List.mem_singleton] at hfind hmem
  rw [hf, hfind, hmem]

/-- What is matched element by element is unwound, and what is not is compared. -/
theorem Matcher.mem_batchNames {m : Matcher} :
    name ∈ m.unwoundNames ++ m.comparedNames ↔ name ∈ m.mapping.batchNames := by
  simp only [List.mem_append, unwoundNames, comparedNames, Mapping.mem_batchNames,
    List.mem_flatMap, Option.mem_toList]
  constructor
  · rintro (⟨e, he, h⟩ | ⟨e, he, h⟩)
    · exact ⟨e, List.mem_of_find?_eq_some he, h⟩
    · split at h
      · cases h
      · exact ⟨e, he, h⟩
  · rintro ⟨e, he, h⟩
    by_cases hmany : e.2.isOneToMany = true
    · exact .inl ⟨e, m.eq_oneToMany he hmany, h⟩
    · exact .inr ⟨e, he, by rwa [if_neg hmany]⟩

theorem NodePlan.IdentifiesOwner.isOneToMany {r : PropertyRef}
    (h : NodePlan.IdentifiesOwner r) : r.isOneToMany = false := by
  rw [PropertyRef.isOneToMany, h.2.1]
  rfl

namespace NodeSchema

open Placeholder

variable {s : NodeSchema} {e : EdgeSchema} {st : Statement}

/-- How a schema writes its nodes, and how it finds them again for an edge. -/
def upsert (s : NodeSchema) : NodeUpsert := ⟨s.label, s.extraLabels, s.properties⟩

def edgeUpsert (s : NodeSchema) (e : EdgeSchema) : EdgeUpsert := ⟨s.label, s.properties.id, e⟩

theorem loadStatements_eq (s : NodeSchema) :
    s.loadStatements =
      .upsertNodes s.upsert :: s.allEdges.map fun e => .upsertEdges (s.edgeUpsert e) := rfl

/-- The references that a load reads. -/
def references (s : NodeSchema) : List PropertyRef :=
  (s.properties.mapping ++
    s.allEdges.flatMap fun e => e.properties.mapping ++ e.target.matcher.mapping).map (·.2)

theorem mem_references_names : (∃ r ∈ s.references, name ∈ r.batchNames) ↔
    name ∈ s.properties.mapping.batchNames ∨
      ∃ e ∈ s.allEdges, name ∈ e.properties.mapping.batchNames ∨
        name ∈ e.target.matcher.mapping.batchNames := by
  simp only [references, Mapping.mem_batchNames, List.mem_map, List.mem_append, List.mem_flatMap]
  constructor
  · rintro ⟨-, ⟨entry, hentry | ⟨e, he, hentry | hentry⟩, rfl⟩, h⟩
    · exact .inl ⟨entry, hentry, h⟩
    · exact .inr ⟨e, he, .inl ⟨entry, hentry, h⟩⟩
    · exact .inr ⟨e, he, .inr ⟨entry, hentry, h⟩⟩
  · rintro (⟨entry, hentry, h⟩ | ⟨e, he, ⟨entry, hentry, h⟩ | ⟨entry, hentry, h⟩⟩)
    · exact ⟨_, ⟨entry, .inl hentry, rfl⟩, h⟩
    · exact ⟨_, ⟨entry, .inr ⟨e, he, .inl hentry⟩, rfl⟩, h⟩
    · exact ⟨_, ⟨entry, .inr ⟨e, he, .inr hentry⟩, rfl⟩, h⟩

theorem mem_parameters_upsertNodes : name ∈ (Statement.upsertNodes s.upsert).parameters ↔
    name = Names.batch ∨ name ∈ s.properties.mapping.batchNames := by
  have htext := Cypher.refers_nodeUpsertText (u := s.upsert) s.valid.label s.valid.extraLabels
  rw [Statement.parameters, Statement.cypher, htext.mem_names, List.mem_cons,
    NodeProperties.mem_batchNames]
  rfl

theorem mem_parameters_upsertEdges : name ∈ (Statement.upsertEdges (s.edgeUpsert e)).parameters ↔
    name = Names.batch ∨ name ∈ s.properties.id.batchNames ∨
      name ∈ e.properties.mapping.batchNames ∨ name ∈ e.target.matcher.mapping.batchNames := by
  have hid : s.properties.id.WellFormed := (s.properties.wellFormed.refs _ s.properties.id_mem).2
  have htext := Cypher.refers_edgeUpsertText (u := s.edgeUpsert e) s.valid.label hid
  rw [Statement.parameters, Statement.cypher, htext.mem_names, List.mem_cons, List.mem_append,
    List.mem_append, Matcher.mem_batchNames, or_assoc, or_comm (b := name ∈ Mapping.batchNames _)]
  rfl

/-- The statements of a load refer to the batch and to what a load reads from parameters. -/
theorem mem_parameters_load : (∃ st ∈ s.loadStatements, name ∈ st.parameters) ↔
    name = Names.batch ∨ ∃ r ∈ s.references, name ∈ r.batchNames := by
  simp only [loadStatements_eq, List.exists_mem_cons_iff, mem_parameters_upsertNodes, List.mem_map,
    exists_exists_and_eq_and, mem_parameters_upsertEdges, mem_references_names]
  constructor
  · rintro ((h | h) | ⟨e, he, h | h | h⟩)
    · exact .inl h
    · exact .inr (.inl h)
    · exact .inl h
    · exact .inr (.inl (Mapping.mem_batchNames.2 ⟨_, s.properties.id_mem, h⟩))
    · exact .inr (.inr ⟨e, he, h⟩)
  · rintro (h | h | ⟨e, he, h⟩)
    · exact .inl (.inl h)
    · exact .inl (.inr h)
    · exact .inr ⟨e, he, .inr (.inr h)⟩

theorem named_of_mem_scope {scope : Scope} (h : scope ∈ s.scope) : scope.Named := by
  obtain ⟨e, -, rfl⟩ := Option.map_eq_some_iff.1 h
  exact ⟨e.valid.edgeType, e.valid.target⟩

theorem ownerValid_of_mem_scope {scope : Scope} (h : scope ∈ s.scope) :
    ∀ entry ∈ scope.owner.matcher.mapping, NodePlan.IdentifiesOwner entry.2 := by
  obtain ⟨e, he, rfl⟩ := Option.map_eq_some_iff.1 h
  rw [scopingEdge] at he
  split at he
  · exact (s.valid.owner e he).exact
  · cases he

/-- The owner of a scope is told by parameters alone. -/
theorem mem_comparedNames_scope {scope : Scope} (h : scope ∈ s.scope) :
    name ∈ scope.owner.matcher.comparedNames ↔
      ∃ entry ∈ scope.owner.matcher.mapping, entry.2.name = name := by
  rw [Matcher.comparedNames, List.mem_flatMap]
  refine exists_congr fun entry => and_congr_right fun hentry => ?_
  have hvalid := ownerValid_of_mem_scope h entry hentry
  rw [hvalid.isOneToMany, if_neg Bool.false_ne_true, PropertyRef.mem_batchNames]
  exact and_iff_right hvalid.2.2

/-- Every sweep of a schema refers to the same names, those of its scope among them. -/
theorem mem_parameters_cleanup (h : st ∈ s.cleanupStatements) :
    name ∈ st.parameters ↔ name ∈ Scope.sweepNames s.scope := by
  have hedge : ∀ (scope : Option Scope) (e : EdgeSchema), (∀ scope' ∈ scope, scope'.Named) →
      Refers (Cypher.edgeSweepText s.label scope e.pattern) (Scope.sweepNames scope) :=
    fun _ e hscope =>
      Cypher.refers_edgeSweepText s.valid.label hscope e.valid.edgeType e.valid.target
  have hscope : ∀ scope ∈ s.scope, scope.Named := fun _ => named_of_mem_scope
  suffices htext : Refers st.cypher (Scope.sweepNames s.scope) from htext.mem_names
  simp only [cleanupStatements, List.cons_append, List.mem_cons, List.mem_append, List.mem_map,
    Option.mem_toList] at h
  rcases h with rfl | ⟨e, -, rfl⟩ | hmem
  · exact Cypher.refers_nodeSweepText s.valid.label hscope
  · exact hedge _ e hscope
  · rw [ownershipSweep] at hmem
    split at hmem
    · next scope hs =>
      obtain rfl := Option.some_inj.1 hmem
      rw [hs]
      exact Cypher.refers_ownershipSweepText s.valid.label (hscope scope hs)
    · next hs =>
      obtain ⟨e, -, rfl⟩ := Option.map_eq_some_iff.1 hmem
      rw [hs]
      exact hedge none e nofun

end NodeSchema

namespace EdgeSchema

variable {e : EdgeSchema}

/-- A standalone edge can be swept: it declares both properties of its owner. -/
theorem exists_cleanupStatement (he : e.IsMatchLink) : ∃ source ownerLabel ownerId,
    e.source = some source ∧ e.properties.mapping.ref? Names.ownerLabel = some ownerLabel ∧
      e.properties.mapping.ref? Names.ownerId = some ownerId ∧
      e.cleanupStatement = .ok (.sweepLinks ⟨source.label, e.pattern, ownerLabel, ownerId⟩) := by
  obtain ⟨source, hsource⟩ := Option.isSome_iff_exists.1 he
  obtain ⟨⟨ownerLabel, hlabel, -⟩, ownerId, hid, -⟩ := e.valid.owned he
  refine ⟨source, ownerLabel, ownerId, hsource, hlabel, hid, ?_⟩
  simp only [cleanupStatement, linkSource, hsource, ownerRef, hlabel, hid]
  rfl

/-- The sweep of a standalone edge refers to its owner, to the tag and to the page size. -/
theorem mem_parameters_sweepLinks {source : Endpoint} {ownerLabel ownerId : PropertyRef}
    (hsource : e.source = some source)
    (hlabel : e.properties.mapping.ref? Names.ownerLabel = some ownerLabel)
    (hid : e.properties.mapping.ref? Names.ownerId = some ownerId) :
    name ∈ (Statement.sweepLinks ⟨source.label, e.pattern, ownerLabel, ownerId⟩).parameters ↔
      name = Names.sweepTag ∨ name ∈ ownerLabel.batchNames ∨ name ∈ ownerId.batchNames ∨
        name = Names.pageSize := by
  have hwf : ∀ {property r}, e.properties.mapping.ref? property = some r → r.WellFormed :=
    fun hr => (e.properties.wellFormed.refs _ (Mapping.mem_of_ref? hr)).2
  have htext := Cypher.refers_linkSweepText
    (s := ⟨source.label, e.pattern, ownerLabel, ownerId⟩) (e.valid.source source hsource)
    e.valid.edgeType e.valid.target (hwf hlabel) (hwf hid)
  rw [Statement.parameters, Statement.cypher, htext.mem_names]
  simp only [List.mem_cons, List.mem_append, List.not_mem_nil, or_false]

end EdgeSchema

end GraphSync
