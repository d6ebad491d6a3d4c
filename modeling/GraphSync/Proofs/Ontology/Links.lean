import Mathlib.Data.List.TakeWhile
import GraphSync.Proofs.Cleanup.Completion
import GraphSync.Proofs.Graph.Marking
import GraphSync.Proofs.Ontology.Concepts
import GraphSync.Proofs.Statement.PropertyLinks

/-! The links of a sync: the queries of every module one after the other, up to the first that asks
for more than a sync binds. -/
namespace GraphSync

namespace CommonParameters

variable {tag : Int} {name : String}

/-- A sync binds its tag and a page size. -/
theorem contains_ofTag_iff : (ofTag tag).toParameters.contains name = true ↔
    name = Names.sweepTag ∨ name = Names.pageSize := by
  rw [contains_toParameters_iff]
  simp [Binds, ofTag, SortedMap.contains]

end CommonParameters

namespace LinkQuery

/-- The first name in the query's text that a sync has no value for. -/
def unbound? (q : LinkQuery) : Option String :=
  q.statement.parameters.find? fun name => name ≠ Names.sweepTag ∧ name ≠ Names.pageSize

/-- Why a sync cannot run a query: a name without a value, or a text for a server. -/
def fault? (q : LinkQuery) : Option GraphError :=
  match q.unbound? with
  | some name => some (.missingParameter q.statement.kind name)
  | none =>
    match q with
    | link _ => none
    | raw text => some (.uninterpretable (Statement.raw text).kind)

/-- The joints that a query marks. -/
def joints (g : Graph) : LinkQuery → List Joint
  | link l => g.joints l
  | raw _ => []

/-- A query of a sync, bound to its tag. -/
def bind (tag : Int) (q : LinkQuery) : JobStatement :=
  .once q.statement (CommonParameters.ofTag tag).toParameters

variable {q : LinkQuery} {l : PropertyLink} {g h : Graph} {now tag : Int} {e : GraphError}
  {name : String}

theorem unbound?_bound : (q.bind tag).bound.unbound? = q.unbound? := by
  rw [BoundStatement.unbound?, unbound?]
  refine congrArg (List.find? · _) (funext fun name => ?_)
  rw [Bool.eq_iff_iff, Bool.not_eq_true', ← Bool.not_eq_true, decide_eq_true_eq, ← not_or]
  exact not_congr CommonParameters.contains_ofTag_iff

/-- A query marks its joints, or fails and changes nothing. -/
theorem run_bind (now tag : Int) (q : LinkQuery) (g : Graph) : (q.bind tag).run now g =
    match q.fault? with
    | some e => (.error e, g)
    | none => (.ok (q.joints g).length, g.markJoints now (.int tag) (q.joints g)) := by
  have hfails : ∀ e, g.execute now [(q.bind tag).bound] = .error e →
      (q.bind tag).run now g = (.error e, g) := fun e he =>
    GraphM.bind_of_error (by rw [GraphM.transact, he])
  rw [fault?.eq_def]
  cases hunbound : q.unbound? with
  | some name =>
    have hcheck : (q.bind tag).bound.check =
        .error (.missingParameter q.statement.kind name) := by
      rw [BoundStatement.check, unbound?_bound, hunbound]
      rfl
    have hrun : g.execute now [(q.bind tag).bound] =
        .error (.missingParameter q.statement.kind name) := by
      rw [Graph.execute, hcheck]
      rfl
    exact hfails _ hrun
  | none =>
    have hcheck : (q.bind tag).bound.check = .ok () := by
      rw [BoundStatement.check, unbound?_bound, hunbound]
    cases q with
    | link l =>
      have happly : g.apply now (.linkByProperty l) ((link l).bind tag).bound.parameters = _ :=
        Graph.linkByProperty_eq (CommonParameters.ofTag tag).find?_sweepTag_toParameters
      have hrun : g.execute now [((link l).bind tag).bound] = .ok (_, [_]) :=
        Graph.execute_cons_eq_ok_iff.2 ⟨hcheck, _, _, [], happly, rfl, rfl⟩
      exact GraphM.bind_of_ok (GraphM.transact_eq_ok_iff.2 hrun)
    | raw text =>
      have hrun : g.execute now [((raw text).bind tag).bound] =
          .error (.uninterpretable (Statement.raw text).kind) := by
        rw [Graph.execute, hcheck]
        rfl
      exact hfails _ hrun

theorem fault?_of_named (hl : l.Named) : (link l).fault? = none := by
  have hparams : (link l).statement.parameters = [Names.sweepTag] := hl.parameters_eq
  rw [fault?.eq_def, unbound?, hparams]
  rfl

theorem joints_congr (hn : h.nodes = g.nodes) (q : LinkQuery) : q.joints h = q.joints g := by
  cases q with
  | link l => exact Graph.joints_congr hn l
  | raw text => rfl

theorem hasEnds_of_mem_joints {p : Joint} (hp : p ∈ q.joints g) : g.HasEnds p.2 := by
  cases q with
  | link l => exact Graph.hasEnds_of_mem_joints hp
  | raw text => cases hp

theorem hasEnds_of_mem_flatMap {qs : List LinkQuery} {p : Joint}
    (hp : p ∈ qs.flatMap (·.joints g)) : g.HasEnds p.2 := by
  obtain ⟨q, -, hq⟩ := List.mem_flatMap.1 hp
  exact hasEnds_of_mem_joints hq

/-- The joints that queries mark up to the first of them that fails. -/
def reached (g : Graph) (qs : List LinkQuery) : List Joint :=
  (qs.takeWhile (·.fault?.isNone)).flatMap (·.joints g)

theorem reached_eq {qs : List LinkQuery} (hqs : qs.findSome? fault? = none) :
    reached g qs = qs.flatMap (·.joints g) := by
  have hall : ∀ q ∈ qs, q.fault?.isNone = true := fun q hq => by
    rw [List.findSome?_eq_none_iff.1 hqs q hq, Option.isNone_none]
  rw [reached, List.takeWhile_eq_self_iff.2 hall]

theorem reached_congr (hn : h.nodes = g.nodes) (qs : List LinkQuery) :
    reached h qs = reached g qs := by
  simp only [reached, joints_congr hn]

/-- Queries run one after the other mark the joints that they have from the start. -/
theorem runAll_bind (now tag : Int) (qs : List LinkQuery) (g : Graph) :
    Job.runAll now (qs.map (·.bind tag)) g =
      (match qs.findSome? fault? with
        | some e => .error e
        | none => .ok (reached g qs).length,
      g.markJoints now (.int tag) (reached g qs)) := by
  induction qs generalizing g with
  | nil => rfl
  | cons q qs ih =>
    have hfirst := run_bind now tag q g
    rw [List.map_cons, Job.runAll, List.findSome?_cons, reached, List.takeWhile_cons]
    cases hfault : q.fault? with
    | some e =>
      rw [hfault] at hfirst
      exact GraphM.bind_of_error hfirst
    | none =>
      rw [hfault] at hfirst
      rw [GraphM.bind_of_ok hfirst, Option.isNone_none, if_pos rfl, List.flatMap_cons,
        Graph.markJoints_append, List.length_append]
      have hrest := ih (g.markJoints now (.int tag) (q.joints g))
      rw [reached_congr Graph.nodes_markJoints] at hrest
      cases hfaults : qs.findSome? fault? with
      | some e =>
        rw [hfaults] at hrest
        exact GraphM.bind_of_error hrest
      | none =>
        rw [hfaults] at hrest
        exact GraphM.bind_of_ok hrest

end LinkQuery

theorem Job.runAll_append (now : Int) (xs ys : List JobStatement) :
    runAll now (xs ++ ys) = do
      let affected ← runAll now xs
      let others ← runAll now ys
      return affected + others := by
  induction xs with
  | nil => simp only [List.nil_append, runAll, pure_bind, Nat.zero_add, bind_pure]
  | cons x xs ih =>
    simp only [List.cons_append, runAll, ih, bind_assoc, pure_bind, Nat.add_assoc]

namespace Sample

/-- Users are linked to the accounts of a label that have their e-mail address. -/
def accountLink (label : String) : PropertyLink :=
  ⟨"User", "email", "HAS_ACCOUNT", label, "email", .exact⟩

def linkedOkta : ModuleMapping := { okta with links := [⟨"", .link (accountLink "OktaUser")⟩] }

def linkedGithub : ModuleMapping :=
  { github with links := [⟨"", .link (accountLink "GitHubUser")⟩] }

def linkedUsers : ConceptTable :=
  { users with
    modules := .ofList [(okta.name, linkedOkta), (github.name, linkedGithub)] }

def linkedOntology : Ontology := ⟨.ofList [("users", linkedUsers)]⟩

theorem named_accountLink {label : String} (hl : isIdentifier label = true) :
    (accountLink label).Named :=
  have huser : isIdentifier "User" = true := by decide
  have hemail : isIdentifier "email" = true := by decide
  have htype : isIdentifier "HAS_ACCOUNT" = true := by decide
  ⟨huser, hemail, htype, hl, hemail⟩

end Sample

namespace Ontology

variable {o : Ontology} {t : ConceptTable} {s : NodeSchema} {concept : String}
  {modules : List String} {mappings : List ModuleMapping} {now tag : Int}

/-- The link queries of several modules, module by module. -/
def queries (mappings : List ModuleMapping) : List LinkQuery :=
  mappings.flatMap fun m => m.links.map (·.query)

theorem runModules_eq_runAll (hm : modules.mapM (o.mapping concept) = .ok mappings) :
    o.runModules concept now (CommonParameters.ofTag tag).toParameters modules =
      GraphM.mapError .graph (Job.runAll now ((queries mappings).map (·.bind tag))) := by
  induction modules generalizing mappings with
  | nil =>
    cases hm
    rfl
  | cons name rest ih =>
    rw [List.mapM_cons] at hm
    obtain ⟨m, hfirst, hm⟩ := bind_eq_ok_iff.1 hm
    obtain ⟨others, hrest, hm⟩ := bind_eq_ok_iff.1 hm
    cases hm
    have hqueries : (queries (m :: others)).map (·.bind tag) =
        (m.links.map fun l => l.query.bind tag) ++ (queries others).map (·.bind tag) := by
      rw [queries, List.flatMap_cons, List.map_append, List.map_map]
      rfl
    rw [runModules, hfirst, ih hrest, hqueries, Job.runAll_append]
    simp only [GraphM.mapError_bind]
    rfl

/-- The links of a sync mark the joints of the queries before the first one that fails. -/
theorem runModules_eq (now tag : Int) (hm : modules.mapM (o.mapping concept) = .ok mappings)
    (g : Graph) :
    o.runModules concept now (CommonParameters.ofTag tag).toParameters modules g =
      (match (queries mappings).findSome? LinkQuery.fault? with
        | some e => .error (.graph e)
        | none => .ok (LinkQuery.reached g (queries mappings)).length,
      g.markJoints now (.int tag) (LinkQuery.reached g (queries mappings))) := by
  rw [runModules_eq_runAll hm, GraphM.mapError, LinkQuery.runAll_bind]
  cases (queries mappings).findSome? LinkQuery.fault? <;> rfl

/-- The concept nodes of the collected records, written one by one. -/
def withConcepts (t : ConceptTable) (s : NodeSchema) (mappings : List ModuleMapping)
    (now tag : Int) (g : Graph) : Graph :=
  (Load.indexed s g).putNodes now s (Load.baseParameters .empty tag)
    (Merge.merge t.concept.idField (sourceRecords mappings g))

/-- What a sync that succeeds makes of a graph: concept nodes, and marked edges from them. -/
def synced (t : ConceptTable) (s : NodeSchema) (mappings : List ModuleMapping) (now tag : Int)
    (g : Graph) : Graph :=
  (withConcepts t s mappings now tag g).markJoints now (.int tag)
    ((queries mappings).flatMap (·.joints (withConcepts t s mappings now tag g)))

theorem kept_merge (hs : t.SchemaOf s) (records : List Record) (params : Parameters) :
    Load.kept s (Merge.merge t.concept.idField records) params =
      Merge.merge t.concept.idField records := by
  refine List.filter_eq_self.2 fun m hm => ?_
  obtain ⟨-, -, v, -, hv⟩ := Merge.identified_merge t.concept.idField records m hm
  rw [hs.resolve_id, hv, Option.isSome_some]

/-- A sync writes the concept nodes that it collects, whatever its links are, and then marks the
joints of these, up to the first query that fails. -/
theorem run_eq (config : LoaderConfig) (now tag : Int) (g : Graph)
    (ht : o.table concept = .ok t) (hschema : o.nodeSchema concept = .ok s)
    (hm : modules.mapM (o.mapping concept) = .ok mappings) :
    ∃ load, Load.nodes config now s (Merge.merge t.concept.idField (sourceRecords mappings g))
        .empty tag g = (.ok load, withConcepts t s mappings now tag g) ∧
      o.run concept modules config now tag g =
        (match (queries mappings).findSome? LinkQuery.fault? with
          | some e => .error (.graph e)
          | none => .ok ⟨(Merge.merge t.concept.idField (sourceRecords mappings g)).length, load,
              (LinkQuery.reached (withConcepts t s mappings now tag g) (queries mappings)).length⟩,
        (withConcepts t s mappings now tag g).markJoints now (.int tag)
          (LinkQuery.reached (withConcepts t s mappings now tag g) (queries mappings))) := by
  have hs := schemaOf_of_nodeSchema ht hschema
  obtain ⟨load, mid, hload⟩ := Load.nodes_of_check config now
    (Merge.merge t.concept.idField (sourceRecords mappings g)) g (hs.check_load tag)
  have hmid : mid = withConcepts t s mappings now tag g := by
    rw [(Load.batches_of_nodes hload).2, Load.batches_eq_putNodes hs.readsNoBatch hs.edges,
      Load.flatten_chunks, kept_merge hs]
    rfl
  subst hmid
  have hlinks := runModules_eq now tag hm (withConcepts t s mappings now tag g)
  have hget : (get : GraphM OntologyError Graph) g = (.ok g, g) := rfl
  refine ⟨load, hload, ?_⟩
  rw [run, GraphM.bind_of_ok (GraphM.ofExcept_eq_ok_iff.2 ⟨hschema, rfl⟩), GraphM.bind_of_ok hget,
    GraphM.bind_of_ok (GraphM.ofExcept_eq_ok_iff.2 ⟨collect_eq ht hm g, rfl⟩),
    GraphM.bind_of_ok (GraphM.mapError_eq_ok_iff.2 hload)]
  cases hfault : (queries mappings).findSome? LinkQuery.fault? with
  | none =>
    rw [hfault] at hlinks
    exact GraphM.bind_of_ok hlinks
  | some e =>
    rw [hfault] at hlinks
    exact GraphM.bind_of_error hlinks

variable {g h : Graph} {config : LoaderConfig} {summary : OntologySummary}

/-- A sync succeeds if none of its queries fails, and then it has run them all. -/
theorem exists_run (config : LoaderConfig) (now tag : Int) (g : Graph)
    (ht : o.table concept = .ok t) (hschema : o.nodeSchema concept = .ok s)
    (hm : modules.mapM (o.mapping concept) = .ok mappings)
    (hfault : (queries mappings).findSome? LinkQuery.fault? = none) :
    ∃ summary, o.run concept modules config now tag g =
      (.ok summary, synced t s mappings now tag g) := by
  obtain ⟨load, -, hrun⟩ := run_eq config now tag g ht hschema hm
  rw [hfault, LinkQuery.reached_eq hfault] at hrun
  exact ⟨_, hrun⟩

theorem eq_synced_of_run (ht : o.table concept = .ok t) (hschema : o.nodeSchema concept = .ok s)
    (hm : modules.mapM (o.mapping concept) = .ok mappings)
    (hrun : o.run concept modules config now tag g = (.ok summary, h)) :
    h = synced t s mappings now tag g := by
  cases hfault : (queries mappings).findSome? LinkQuery.fault? with
  | none =>
    obtain ⟨_, hall⟩ := exists_run config now tag g ht hschema hm hfault
    cases hrun.symm.trans hall
    rfl
  | some e =>
    obtain ⟨load, -, hall⟩ := run_eq config now tag g ht hschema hm
    rw [hfault] at hall
    cases hrun.symm.trans hall

end Ontology

theorem Sample.fault?_linked :
    (Ontology.queries [linkedOkta, linkedGithub]).findSome? LinkQuery.fault? = none := by
  rw [List.findSome?_eq_none_iff]
  intro q hq
  rcases List.mem_cons.1 hq with rfl | hq
  · exact LinkQuery.fault?_of_named (named_accountLink (by decide))
  · rw [List.mem_singleton.1 hq]
    exact LinkQuery.fault?_of_named (named_accountLink (by decide))

end GraphSync
