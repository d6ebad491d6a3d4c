import GraphSync.Load
import GraphSync.Proofs.FirstOccurrence
import GraphSync.Proofs.Statement.References

/-! Indexes are named by identifiers, so their statements refer to nothing and never fail. -/
namespace GraphSync

namespace IndexTarget

/-- Label and property are identifiers. -/
structure Named (t : IndexTarget) : Prop where
  label : isIdentifier t.label = true
  property : isIdentifier t.property = true

variable {t : IndexTarget}

theorem Named.plainText (ht : t.Named) : Placeholder.PlainText (Cypher.indexText t) := by
  have hbefore : Placeholder.PlainText "CREATE INDEX IF NOT EXISTS FOR (n:" := by decide
  have hbetween : Placeholder.PlainText ") ON (n." := by decide
  have hafter : Placeholder.PlainText ")" := by decide
  have hlabel := Placeholder.plainText_of_isIdentifier ht.label
  have hproperty := Placeholder.plainText_of_isIdentifier ht.property
  exact (((hbefore.append hlabel).append hbetween).append hproperty).append hafter

theorem Named.parameters_eq (ht : t.Named) : (Statement.createIndex t).parameters = [] :=
  List.eq_nil_iff_forall_not_mem.2 fun _ hname =>
    List.not_mem_nil (ht.plainText.refers.mem_names.1 hname)

theorem Named.check_eq (ht : t.Named) (params : Parameters) :
    BoundStatement.check ⟨.createIndex t, params⟩ = .ok () := by
  simp only [BoundStatement.check, BoundStatement.unbound?, ht.parameters_eq, List.find?_nil]

end IndexTarget

namespace NodeSchema

variable {s : NodeSchema} {t : IndexTarget}

theorem named_of_mem_endpointIndexes {p : Endpoint} (hp : isIdentifier p.label = true)
    (ht : t ∈ EdgeSchema.endpointIndexes p) : t.Named := by
  obtain ⟨name, hname, rfl⟩ := List.mem_map.1 ht
  obtain ⟨entry, hentry, rfl⟩ := List.mem_map.1 hname
  exact ⟨hp, (p.matcher.wellFormed.refs entry hentry).1⟩

/-- Everything that a schema is looked up by has a name that can stand in a statement. -/
theorem named_of_mem_indexTargets (ht : t ∈ s.indexTargets) : t.Named := by
  have hid : isIdentifier Names.id = true := by decide
  have hmark : isIdentifier Names.mark = true := by decide
  simp only [indexTargets, List.mem_append, List.mem_cons, List.not_mem_nil, or_false,
    List.mem_map, List.mem_filter, List.mem_flatMap] at ht
  rcases ht with (((rfl | rfl) | ⟨entry, ⟨hentry, -⟩, rfl⟩) | ⟨label, hlabel, rfl⟩) | ⟨e, -, he⟩
  · exact ⟨s.valid.label, hid⟩
  · exact ⟨s.valid.label, hmark⟩
  · exact ⟨s.valid.label, (s.properties.wellFormed.refs entry hentry).1⟩
  · exact ⟨s.valid.extraLabels label hlabel, hid⟩
  · exact named_of_mem_endpointIndexes e.valid.target he

end NodeSchema

/-- The targets of index statements, each once. -/
def distinctTargets (targets : List IndexTarget) : List IndexTarget :=
  targets.foldl (fun seen t => if t ∈ seen then seen else seen ++ [t]) []

theorem distinctTargets_eq (targets : List IndexTarget) :
    distinctTargets targets = targets.eraseDups := by
  induction targets using List.reverseRecOn with
  | nil => rfl
  | append_singleton targets t ih =>
    rw [distinctTargets] at ih
    rw [distinctTargets, List.foldl_append, ih, eraseDups_concat, List.foldl_cons, List.foldl_nil]
    by_cases ht : t ∈ targets
    · rw [if_pos (List.mem_eraseDups.2 ht), if_pos ht, List.append_nil]
    · rw [if_neg (mt List.mem_eraseDups.1 ht), if_neg ht]

theorem mem_distinctTargets {targets : List IndexTarget} {t : IndexTarget} :
    t ∈ distinctTargets targets ↔ t ∈ targets := by
  rw [distinctTargets_eq, List.mem_eraseDups]

namespace Graph

/-- The graph with indexes for more targets; nodes, edges and keys are the same. -/
def withIndexes (g : Graph) (targets : List IndexTarget) : Graph :=
  { g with indexes := SortedSet.addAll g.indexes targets }

end Graph

namespace Load

variable {now : Int} {g : Graph} {s : NodeSchema}

theorem createIndexes_eq {targets : List IndexTarget} (ht : ∀ t ∈ targets, t.Named) :
    createIndexes now (targets.map .createIndex) g =
      (.ok targets.length, g.withIndexes targets) := by
  have hall : ((targets.map Statement.createIndex).forM fun s =>
      discard (GraphM.transact now [⟨s, .empty⟩]) : GraphM GraphError Unit) g =
        (.ok (), g.withIndexes targets) := by
    induction targets generalizing g with
    | nil => rfl
    | cons t rest ih =>
      obtain ⟨hfirst, hrest⟩ := List.forall_mem_cons.1 ht
      have hone : GraphM.transact now [⟨.createIndex t, .empty⟩] g =
          (.ok [0], g.withIndexes [t]) := by
        simp only [GraphM.transact, Graph.execute, Graph.apply, hfirst.check_eq]
        rfl
      rw [List.map_cons, List.forM, GraphM.bind_of_ok (a := ()) (h := g.withIndexes [t])]
      · exact ih hrest
      · exact GraphM.discard_of_ok hone
  rw [createIndexes, GraphM.bind_of_ok hall, List.length_map]
  rfl

/-- The graph that the batches of a load start with. -/
def indexed (s : NodeSchema) (g : Graph) : Graph :=
  g.withIndexes (distinctTargets s.indexTargets)

/-- The indexes of a schema can always be created, and nothing else changes. -/
theorem ensureIndexes_eq : ensureIndexes now s g =
    (.ok s.indexStatements.length, indexed s g) := by
  have hnamed : ∀ t ∈ distinctTargets s.indexTargets, t.Named := fun t ht =>
    NodeSchema.named_of_mem_indexTargets (mem_distinctTargets.1 ht)
  have hs : s.indexStatements = (distinctTargets s.indexTargets).map .createIndex := rfl
  rw [ensureIndexes, hs, createIndexes_eq hnamed, List.length_map, indexed]

end Load

end GraphSync
