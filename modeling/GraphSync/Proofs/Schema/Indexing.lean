import GraphSync.Proofs.Sample
import GraphSync.Proofs.Statement.Lookups

/-! Indexes cover what is looked up: those of a schema are for every property by which one of its
statements finds nodes, and are told one by one, each once. -/
namespace GraphSync

/-- What the indexes of a schema are for. -/
inductive NodeSchema.Indexed (s : NodeSchema) : IndexTarget → Prop
  | id : Indexed s ⟨s.label, Names.id⟩
  | mark : Indexed s ⟨s.label, Names.mark⟩
  | flagged {name : String} {r : PropertyRef} (hentry : (name, r) ∈ s.properties.mapping)
      (hflag : r.extraIndex = true) : Indexed s ⟨s.label, name⟩
  | extraLabel {label : String} (hlabel : label ∈ s.extraLabels) : Indexed s ⟨label, Names.id⟩
  | edgeKey {e : EdgeSchema} {key : String} (he : e ∈ s.edges)
      (hkey : key ∈ e.target.matcher.keys) : Indexed s ⟨e.target.label, key⟩
  | ownerKey {o : EdgeSchema} {key : String} (ho : s.owner = some o)
      (hkey : key ∈ o.target.matcher.keys) : Indexed s ⟨o.target.label, key⟩

/-- What the indexes of a standalone edge are for. -/
inductive EdgeSchema.Indexed (e : EdgeSchema) (source : Endpoint) : IndexTarget → Prop
  | sourceKey {key : String} (hkey : key ∈ source.matcher.keys) :
      Indexed e source ⟨source.label, key⟩
  | targetKey {key : String} (hkey : key ∈ e.target.matcher.keys) :
      Indexed e source ⟨e.target.label, key⟩

/-- Statements that create just the indexes that are wanted, each once, in the order in which a walk
first comes by them. -/
structure Statement.CreatesOnce (walk : List IndexTarget) (wanted : IndexTarget → Prop)
    (targets : List IndexTarget) (statements : List Statement) : Prop where
  statements : statements = targets.map .createIndex
  nodup : targets.Nodup
  mem : ∀ t, t ∈ targets ↔ wanted t
  ordered : targets.Pairwise fun a b => walk.idxOf a < walk.idxOf b

/-- What a statement looks up is indexed, and no other property of a node makes a difference to what
it does. -/
structure Statement.ServedBy (targets : List IndexTarget) (st : Statement) : Prop where
  indexed : ∀ {label property}, st.LooksUp label property → ⟨label, property⟩ ∈ targets
  apart : ∀ (now : Int) (params : Parameters) {g h : Graph}, g.AgreeOn st.LooksUp h →
    Graph.SameOutcome st.LooksUp (g.apply now st params) (h.apply now st params)

theorem Statement.ServedBy.of_looksUp {targets : List IndexTarget} {st : Statement}
    (hindexed : ∀ {label property}, st.LooksUp label property → ⟨label, property⟩ ∈ targets) :
    st.ServedBy targets :=
  ⟨hindexed, fun now params _ _ => Graph.sameOutcome_of_agreeOn now params⟩

theorem EdgeSchema.mem_endpointIndexes {p : Endpoint} {t : IndexTarget} :
    t ∈ endpointIndexes p ↔ t.label = p.label ∧ t.property ∈ p.matcher.keys := by
  obtain ⟨label, property⟩ := t
  simp only [endpointIndexes, List.mem_map, IndexTarget.mk.injEq]
  constructor
  · rintro ⟨key, hkey, rfl, rfl⟩
    exact ⟨rfl, hkey⟩
  · rintro ⟨rfl, hkey⟩
    exact ⟨property, hkey, rfl, rfl⟩

theorem createsOnce_indexAll {walk : List IndexTarget} {wanted : IndexTarget → Prop}
    (hmem : ∀ t, t ∈ walk ↔ wanted t) :
    Statement.CreatesOnce walk wanted walk.eraseDups (indexAll walk) where
  statements := congrArg (List.map Statement.createIndex) (distinctTargets_eq walk)
  nodup := nodup_eraseDups walk
  mem t := List.mem_eraseDups.trans (hmem t)
  ordered := pairwise_eraseDups walk

namespace NodeSchema

variable {s : NodeSchema} {t : IndexTarget} {st : Statement} {label property : String}

theorem mem_indexTargets_iff : t ∈ s.indexTargets ↔ s.Indexed t := by
  simp only [indexTargets, List.mem_append, List.mem_cons, List.not_mem_nil, or_false, List.mem_map,
    List.mem_filter, List.mem_flatMap, EdgeSchema.mem_endpointIndexes, allEdges, Option.mem_toList]
  constructor
  · rintro ((((rfl | rfl) | ⟨entry, ⟨hentry, hflag⟩, rfl⟩) | ⟨l, hl, rfl⟩) | ⟨e, he, hlabel, hkey⟩)
    · exact .id
    · exact .mark
    · exact .flagged hentry hflag
    · exact .extraLabel hl
    · obtain ⟨_, _⟩ := t
      obtain rfl := hlabel
      exact he.elim (.edgeKey · hkey) (.ownerKey · hkey)
  · intro h
    cases h with
    | id => exact .inl (.inl (.inl (.inl rfl)))
    | mark => exact .inl (.inl (.inl (.inr rfl)))
    | flagged hentry hflag => exact .inl (.inl (.inr ⟨_, ⟨hentry, hflag⟩, rfl⟩))
    | extraLabel hlabel => exact .inl (.inr ⟨_, hlabel, rfl⟩)
    | edgeKey he hkey => exact .inr ⟨_, .inl he, rfl, hkey⟩
    | ownerKey ho hkey => exact .inr ⟨_, .inr ho, rfl, hkey⟩

/-- What a load looks up is indexed. -/
theorem indexed_of_load (hst : st ∈ s.loadStatements) (hlooks : st.LooksUp label property) :
    s.Indexed ⟨label, property⟩ := by
  rw [loadStatements_eq, List.mem_cons, List.mem_map] at hst
  rcases hst with rfl | ⟨e, he, rfl⟩
  · cases hlooks with
    | identity => exact .id
    | owner hscope => cases hscope
  · cases hlooks with
    | loaded => exact .id
    | target _ hkey =>
      rcases List.mem_append.1 he with he | ho
      · exact .edgeKey he hkey
      · exact .ownerKey (Option.mem_toList.1 ho) hkey
    | owner hscope => cases hscope

/-- What a cleanup looks up is indexed. -/
theorem indexed_of_cleanup (hst : st ∈ s.cleanupStatements) (hlooks : st.LooksUp label property) :
    s.Indexed ⟨label, property⟩ := by
  have howner : ∀ {scope : Scope} {key : String}, s.scope = some scope →
      key ∈ scope.owner.matcher.keys → s.Indexed ⟨scope.owner.label, key⟩ := by
    intro scope key hscope hkey
    obtain ⟨o, ho, rfl⟩ := scope_eq_some_iff.1 hscope
    exact .ownerKey (owner_of_scopingEdge ho) hkey
  rw [cleanupStatements, List.cons_append, List.mem_cons, List.mem_append, List.mem_map,
    Option.mem_toList] at hst
  rcases hst with rfl | ⟨e, -, rfl⟩ | hst
  · cases hlooks with
    | mark => exact .mark
    | owner hscope hkey => exact howner hscope hkey
  · cases hlooks with
    | owner hscope hkey => exact howner hscope hkey
  · rw [ownershipSweep] at hst
    cases hs : s.scope with
    | some scope =>
      rw [hs] at hst
      cases hst
      cases hlooks with
      | owner hscope hkey => exact howner (hs.trans hscope) hkey
    | none =>
      -- Without a scope no owner is looked up: any node of the owner's label will do.
      rw [hs] at hst
      obtain ⟨o, -, rfl⟩ := Option.map_eq_some_iff.1 hst
      cases hlooks with
      | owner hscope => cases hscope

end NodeSchema

namespace EdgeSchema

variable {e : EdgeSchema} {source : Endpoint} {t : IndexTarget} {label property : String}

theorem mem_append_endpointIndexes :
    t ∈ endpointIndexes source ++ endpointIndexes e.target ↔ e.Indexed source t := by
  simp only [List.mem_append, mem_endpointIndexes]
  constructor
  · obtain ⟨label, property⟩ := t
    rintro (⟨rfl, hkey⟩ | ⟨rfl, hkey⟩)
    · exact .sourceKey hkey
    · exact .targetKey hkey
  · intro h
    cases h with
    | sourceKey hkey => exact .inl ⟨rfl, hkey⟩
    | targetKey hkey => exact .inr ⟨rfl, hkey⟩

theorem looksUp_upsertLinks_iff :
    (Statement.upsertLinks ⟨source, e⟩).LooksUp label property ↔
      e.Indexed source ⟨label, property⟩ := by
  constructor
  · intro h
    cases h with
    | linkSource _ hkey => exact .sourceKey hkey
    | linkTarget _ hkey => exact .targetKey hkey
    | owner hscope => cases hscope
  · intro h
    cases h with
    | sourceKey hkey => exact .linkSource ⟨source, e⟩ hkey
    | targetKey hkey => exact .linkTarget ⟨source, e⟩ hkey

end EdgeSchema

/-- The indexes of a schema are for its nodes' identity and mark, the properties that it flags, the
identity under each further label, and the keys of each edge's matcher, and its load and its cleanup
look up nothing else. Those of a standalone edge are for just what its load looks up, the keys of
its two matchers. Either way each index is told once, where it first comes up. -/
theorem indexes_cover_lookups :
    (∀ s : NodeSchema, ∃ targets,
      Statement.CreatesOnce s.indexTargets s.Indexed targets s.indexStatements ∧
      ∀ st ∈ s.loadStatements ++ s.cleanupStatements, st.ServedBy targets) ∧
    ∀ (e : EdgeSchema) (source : Endpoint), e.source = some source → ∃ targets statements st,
      e.indexStatements = .ok statements ∧
      Statement.CreatesOnce (EdgeSchema.endpointIndexes source ++
        EdgeSchema.endpointIndexes e.target) (e.Indexed source) targets statements ∧
      e.loadStatement = .ok st ∧ st.ServedBy targets ∧
      ∀ label property, ⟨label, property⟩ ∈ targets ↔ st.LooksUp label property := by
  constructor
  · intro s
    have honce := createsOnce_indexAll fun _ => s.mem_indexTargets_iff
    refine ⟨_, honce, fun st hst => .of_looksUp fun hlooks => (honce.mem _).2 ?_⟩
    rcases List.mem_append.1 hst with hload | hcleanup
    · exact NodeSchema.indexed_of_load hload hlooks
    · exact NodeSchema.indexed_of_cleanup hcleanup hlooks
  · intro e source hsource
    have hlink : e.linkSource = .ok source := by rw [EdgeSchema.linkSource, hsource]
    have honce : Statement.CreatesOnce _ (e.Indexed source) _ (indexAll _) :=
      createsOnce_indexAll fun _ => EdgeSchema.mem_append_endpointIndexes
    have hserved := fun label property => (honce.mem ⟨label, property⟩).trans
      EdgeSchema.looksUp_upsertLinks_iff.symm
    refine ⟨_, _, .upsertLinks ⟨source, e⟩, ?_, honce, ?_, .of_looksUp (hserved _ _).2, hserved⟩
    · rw [EdgeSchema.indexStatements, hlink]
      rfl
    · rw [EdgeSchema.loadStatement, hlink]
      rfl

/-- The project that scopes the cleanup of buckets is found by an index, and so is the tag that a
grant leads to, which the load does not look up by its mark. -/
theorem indexes_cover_lookups_of_sample :
    (∀ st ∈ Sample.bucket.cleanupStatements, st.LooksUp "Project" Names.id →
      .createIndex ⟨"Project", Names.id⟩ ∈ Sample.bucket.indexStatements) ∧
    (.sweepOwnership "Bucket" ⟨"RESOURCE", Sample.inProject.target⟩ ∈
        Sample.bucket.cleanupStatements ∧
      (Statement.sweepOwnership "Bucket" ⟨"RESOURCE", Sample.inProject.target⟩).LooksUp "Project"
        Names.id) ∧
    ∃ source statements st, Sample.granted.source = some source ∧
      Sample.granted.indexStatements = .ok statements ∧
      Sample.granted.loadStatement = .ok st ∧
      .createIndex ⟨"Tag", Names.id⟩ ∈ statements ∧ ¬ st.LooksUp "Tag" Names.mark := by
  obtain ⟨hnodes, hlinks⟩ := indexes_cover_lookups
  obtain ⟨targets, honce, hserved⟩ := hnodes Sample.bucket
  obtain ⟨ends, statements, st, hstatements, hends, hst, -, hlooks⟩ := hlinks Sample.granted _ rfl
  refine ⟨fun st hst hlooks => ?_, ⟨?_, ?_⟩, _, statements, st, rfl, hstatements, hst, ?_, ?_⟩
  · rw [honce.statements]
    exact List.mem_map_of_mem ((hserved st (List.mem_append_right _ hst)).indexed hlooks)
  · exact List.mem_append_right _ (List.mem_singleton_self _)
  · have hscope : ∀ scope, (Statement.sweepOwnership "Bucket" scope).sweepScope? = some scope :=
      fun _ => rfl
    exact .owner (hscope _) (List.mem_singleton_self Names.id)
  · rw [hends.statements]
    exact List.mem_map_of_mem ((hends.mem _).2 (.targetKey (List.mem_singleton_self _)))
  · intro hmark
    have hwalk := EdgeSchema.mem_append_endpointIndexes.2
      ((hends.mem _).1 ((hlooks _ _).2 hmark))
    exact absurd hwalk (by decide)

end GraphSync
