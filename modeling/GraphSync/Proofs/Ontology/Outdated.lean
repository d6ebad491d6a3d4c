import GraphSync.Proofs.Cleanup.Effect
import GraphSync.Proofs.Load.Owned
import GraphSync.Proofs.Ontology.Links

/-! What a sync and the cleanup of its concept leave of links. Edges of pairs that agree carry the
tag of the sync; an edge whose ends no longer agree is neither written nor swept, and stays as long
as its ends do. -/
namespace GraphSync

namespace Graph

variable {g h : Graph} {l : PropertyLink} {keys : List Nat} {a b key : Nat} {e : Edge}
  {qs : List LinkQuery}

/-- One of the link queries is for the edge's type and pairs its ends. -/
def Paired (g : Graph) (qs : List LinkQuery) (e : Edge) : Prop :=
  ∃ l, LinkQuery.link l ∈ qs ∧ e.edgeType = l.edgeType ∧ (e.start, e.finish) ∈ g.linkedPairs l

theorem paired_iff : g.Paired qs e ↔ e.joint ∈ qs.flatMap (·.joints g) := by
  rw [List.mem_flatMap]
  constructor
  · rintro ⟨l, hl, htype, hpair⟩
    exact ⟨.link l, hl, mem_joints.2 ⟨htype, hpair⟩⟩
  · rintro ⟨q, hq, hjoint⟩
    cases q with
    | link l =>
      obtain ⟨htype, hpair⟩ := mem_joints.1 hjoint
      exact ⟨l, hq, htype, hpair⟩
    | raw text => cases hjoint

/-- Pairs stay pairs while neither node of them goes. -/
theorem mem_linkedPairs_removeNodes : (a, b) ∈ (g.removeNodes keys).linkedPairs l ↔
    (a, b) ∈ g.linkedPairs l ∧ a ∉ keys ∧ b ∉ keys := by
  simp only [mem_linkedPairs, find?_nodes_removeNodes]
  constructor
  · rintro ⟨n, m, v, hn, hl, hv, hm, hlm, haccepts⟩
    split at hn
    · cases hn
    · next ha =>
      split at hm
      · cases hm
      · next hb => exact ⟨⟨n, m, v, hn, hl, hv, hm, hlm, haccepts⟩, ha, hb⟩
  · rintro ⟨⟨n, m, v, hn, hl, hv, hm, hlm, haccepts⟩, ha, hb⟩
    exact ⟨n, m, v, by rw [if_neg ha, hn], hl, hv, by rw [if_neg hb, hm], hlm, haccepts⟩

theorem paired_removeNodes (hstart : e.start ∉ keys) (hfinish : e.finish ∉ keys) :
    (g.removeNodes keys).Paired qs e ↔ g.Paired qs e := by
  refine exists_congr fun l => and_congr_right fun _ => and_congr_right fun _ => ?_
  rw [mem_linkedPairs_removeNodes, and_iff_left ⟨hstart, hfinish⟩]

theorem joint_eq_iff {edgeType : String} :
    e.joint = (edgeType, a, b) ↔ e.edgeType = edgeType ∧ e.start = a ∧ e.finish = b := by
  simp only [Edge.joint, Prod.mk.injEq]

theorem not_mem_of_find?_removeNodes
    (hn : ∃ n, (g.removeNodes keys).nodes.find? key = some n) : key ∉ keys := by
  obtain ⟨n, hn⟩ := hn
  rw [find?_nodes_removeNodes] at hn
  split at hn
  · cases hn
  · next hk => exact hk

theorem find?_edges_removeNodes_iff : (g.removeNodes keys).edges.find? key = some e ↔
    g.edges.find? key = some e ∧ e.start ∉ keys ∧ e.finish ∉ keys := by
  rw [find?_edges_removeNodes, Option.filter_eq_some_iff]
  simp

/-- An edge that no pair is for was there before the links, and stays while its ends do. -/
theorem find?_removeNodes_of_unpaired (hh : h.WellFormed)
    (hothers : ∀ key e, ¬ h.Paired qs e →
      (h.edges.find? key = some e ↔ g.edges.find? key = some e))
    (hp : ¬ (h.removeNodes keys).Paired qs e) :
    (h.removeNodes keys).edges.find? key = some e ↔
      g.edges.find? key = some e ∧ (h.removeNodes keys).HasEnds (e.start, e.finish) := by
  constructor
  · intro he
    have hi : (h.removeNodes keys).WellFormed := hh.removeNodes keys
    have hends : (h.removeNodes keys).HasEnds (e.start, e.finish) := ⟨hi.start he, hi.finish he⟩
    obtain ⟨he, hstart, hfinish⟩ := find?_edges_removeNodes_iff.1 he
    have hunpaired : ¬ h.Paired qs e := fun hpaired =>
      hp ((paired_removeNodes hstart hfinish).2 hpaired)
    exact ⟨(hothers key e hunpaired).1 he, hends⟩
  · rintro ⟨he, hstart, hfinish⟩
    have hstart := not_mem_of_find?_removeNodes hstart
    have hfinish := not_mem_of_find?_removeNodes hfinish
    have hunpaired : ¬ h.Paired qs e := fun hpaired =>
      hp ((paired_removeNodes hstart hfinish).2 hpaired)
    exact find?_edges_removeNodes_iff.2 ⟨(hothers key e hunpaired).2 he, hstart, hfinish⟩

end Graph

namespace ConceptTable.SchemaOf

variable {t : ConceptTable} {s : NodeSchema} {common : CommonParameters} {g : Graph}

theorem owner_eq_none (hs : t.SchemaOf s) : s.edges = [] ∧ s.owner = none := by
  obtain ⟨hedges, howner⟩ := List.append_eq_nil_iff.1 hs.edges
  exact ⟨hedges, Option.toList_eq_nil_iff.1 howner⟩

theorem scopingEdge_eq_none (hs : t.SchemaOf s) : s.scopingEdge = none := by
  rw [NodeSchema.scopingEdge, hs.owner_eq_none.2, ite_self]

/-- The cleanup of a concept takes away its stale nodes, with the edges at them, and no more. -/
theorem run_cleanup (hs : t.SchemaOf s) (now : Int) (common : CommonParameters) (g : Graph) :
    ∃ n, (Job.cleanup s common).run now g = (.ok n,
      g.removeNodes (g.staleNodes common.bound (.int common.tag) t.concept.label none)) := by
  obtain ⟨hedges, howner⟩ := hs.owner_eq_none
  have hscope : s.scope = none := by rw [NodeSchema.scope, hs.scopingEdge_eq_none, Option.map_none]
  have hcheck : (Job.cleanup s common).check = .ok () := by
    rw [NodeSchema.check_cleanup_iff, hscope]
    exact fun _ h => nomatch h
  have hapart : s.OwnersApart g := fun o ho => nomatch hs.scopingEdge_eq_none.symm.trans ho
  have hsweeps : s.sweeps common.bound (.int common.tag) =
      [.ofNodes common.bound (.int common.tag) s.label s.scope] := by
    rw [NodeSchema.sweeps_eq, hedges, NodeSchema.ownerSweeps, NodeSchema.ownershipSweep, hscope,
      howner]
    rfl
  obtain ⟨n, h, hr, hrun⟩ := NodeSchema.run_cleanup (s := s) now g hcheck
  rw [hsweeps] at hr
  cases hr with
  | @cons _ _ _ mid _ keys n hp hrest =>
    cases hrest
    have hleft : h = g.removeNodes
        (g.staleNodes common.bound (.int common.tag) t.concept.label none) := by
      rw [hp.eq_strike, hp.eq_targets (Sweep.steady_ofNodes hapart), ← hs.label, ← hscope]
      rfl
    exact ⟨_, hleft ▸ hrun⟩

end ConceptTable.SchemaOf

namespace Ontology

variable {o : Ontology} {t : ConceptTable} {s : NodeSchema} {concept : String}
  {modules : List String} {mappings : List ModuleMapping} {g h : Graph} {now tag : Int}
  {config : LoaderConfig} {summary : OntologySummary} {common : CommonParameters}

theorem wellFormed_withConcepts (hg : g.WellFormed) :
    (withConcepts t s mappings now tag g).WellFormed := (Load.wellFormed_indexed hg).putNodes

theorem edges_withConcepts : (withConcepts t s mappings now tag g).edges = g.edges :=
  Graph.edges_putNodes

/-- After a sync every pair that agrees is joined by an edge with its tag, and edges between
others are what they were before. -/
theorem edges_of_run (hg : g.WellFormed) (ht : o.table concept = .ok t)
    (hschema : o.nodeSchema concept = .ok s)
    (hm : modules.mapM (o.mapping concept) = .ok mappings)
    (hrun : o.run concept modules config now tag g = (.ok summary, h)) : h.WellFormed ∧
    (∀ p ∈ (queries mappings).flatMap (·.joints h), ∃ key e,
      h.edges.find? key = some e ∧ e.joint = p) ∧
    (∀ key e, h.edges.find? key = some e → h.Paired (queries mappings) e →
      e.properties.find? Names.mark = some (.int tag)) ∧
    ∀ key e, ¬ h.Paired (queries mappings) e →
      (h.edges.find? key = some e ↔ g.edges.find? key = some e) := by
  obtain rfl := eq_synced_of_run ht hschema hm hrun
  have hmid : (withConcepts t s mappings now tag g).WellFormed := wellFormed_withConcepts hg
  have hjoints : ∀ q : LinkQuery, q.joints ((withConcepts t s mappings now tag g).markJoints now
      (.int tag) ((queries mappings).flatMap (·.joints (withConcepts t s mappings now tag g)))) =
        q.joints (withConcepts t s mappings now tag g) := fun q =>
    q.joints_congr Graph.nodes_markJoints
  have hends : ∀ p ∈ (queries mappings).flatMap
      (·.joints (withConcepts t s mappings now tag g)),
      (withConcepts t s mappings now tag g).HasEnds p.2 := fun _ hp =>
    LinkQuery.hasEnds_of_mem_flatMap hp
  simp only [synced, Graph.paired_iff, hjoints]
  refine ⟨hmid.markJoints hends, fun p hp => ?_, fun key e he hp => ?_, fun key e hp => ?_⟩
  · rw [← Graph.isSome_between_iff, Graph.between_markJoints hmid hends, if_pos hp]
    rfl
  · exact Graph.mark_of_markJoints hmid hends he hp
  · rw [Graph.find?_markJoints_of_joint_not_mem hmid hends hp, edges_withConcepts]

/-- After a sync and the cleanup of its concept under the same tag, whatever was run before: each
pair that agrees is joined by an edge with the tag of the sync. An edge whose ends do not agree is
what it was before the sync, and stays unless one of its ends is a stale node of the concept. -/
theorem links_after_cleanup (later : Int) (common : CommonParameters) (hg : g.WellFormed)
    (ht : o.table concept = .ok t) (hschema : o.nodeSchema concept = .ok s)
    (hm : modules.mapM (o.mapping concept) = .ok mappings) (htag : common.tag = tag)
    (hrun : o.run concept modules config now tag g = (.ok summary, h)) :
    ∃ n i, (Job.cleanup s common).run later h = (.ok n, i) ∧
      (∀ l, LinkQuery.link l ∈ queries mappings → ∀ a b, (a, b) ∈ i.linkedPairs l →
        ∃ key e, i.edges.find? key = some e ∧ e.joint = (l.edgeType, a, b)) ∧
      (∀ key e, i.edges.find? key = some e → i.Paired (queries mappings) e →
        e.properties.find? Names.mark = some (.int tag)) ∧
      (∀ key e, ¬ i.Paired (queries mappings) e → (i.edges.find? key = some e ↔
        g.edges.find? key = some e ∧ i.HasEnds (e.start, e.finish))) ∧
      ∀ key n, i.nodes.find? key = some n ↔ h.nodes.find? key = some n ∧
        (n.hasLabel t.concept.label = true → n.properties.isStale (.int tag) = false) := by
  have hs := schemaOf_of_nodeSchema ht hschema
  obtain ⟨hh, hjoined, hmarked, hothers⟩ := edges_of_run hg ht hschema hm hrun
  obtain ⟨n, hcleanup⟩ := hs.run_cleanup later common h
  rw [htag] at hcleanup
  have hstale : ∀ key, key ∈ h.staleNodes common.bound (.int tag) t.concept.label none ↔
      ∃ n, h.nodes.find? key = some n ∧ n.hasLabel t.concept.label = true ∧
        n.properties.isStale (.int tag) = true := fun key => by
    simp only [Graph.mem_staleNodes, Graph.inScope, Option.all_none, and_true]
  refine ⟨n, _, hcleanup, fun l hl a b hpair => ?_, fun key e he hp => ?_, fun key e hp => ?_,
    fun key n => ?_⟩
  · obtain ⟨hpair, ha, hb⟩ := Graph.mem_linkedPairs_removeNodes.1 hpair
    obtain ⟨key, e, he, hjoint⟩ := hjoined (l.edgeType, a, b)
      (List.mem_flatMap.2 ⟨.link l, hl, Graph.mem_joints.2 ⟨rfl, hpair⟩⟩)
    obtain ⟨-, hstart, hfinish⟩ := Graph.joint_eq_iff.1 hjoint
    exact ⟨key, e, Graph.find?_edges_removeNodes_iff.2
      ⟨he, hstart ▸ ha, hfinish ▸ hb⟩, hjoint⟩
  · obtain ⟨he, hstart, hfinish⟩ := Graph.find?_edges_removeNodes_iff.1 he
    exact hmarked key e he ((Graph.paired_removeNodes hstart hfinish).1 hp)
  · exact Graph.find?_removeNodes_of_unpaired hh hothers hp
  · rw [Graph.find?_nodes_removeNodes]
    constructor
    · intro hn
      split at hn
      · cases hn
      · next hk =>
        refine ⟨hn, fun hl => Bool.eq_false_iff.2 fun hst => hk ((hstale key).2 ⟨n, hn, hl, hst⟩)⟩
    · rintro ⟨hn, hfresh⟩
      rw [if_neg, hn]
      intro hk
      obtain ⟨m, hm, hl, hst⟩ := (hstale key).1 hk
      cases hn.symm.trans hm
      exact Bool.false_ne_true ((hfresh hl).symm.trans hst)

end Ontology

namespace Sample

/-- Accounts by their own identity, with an e-mail address. -/
def githubUser : NodeSchema where
  label := "GitHubUser"
  properties := {
    mapping := [(Names.id, .field "id"), (Names.mark, .batch Names.loadTag),
      ("email", .field "email")]
    wellFormed := ⟨by decide, by decide⟩
    unreserved := by decide
    marked := by decide
    identified := by decide }
  scopedCleanup := false
  valid := NodePlan.fault?_eq_none_iff.1 (by decide)

/-- Two accounts of one user. -/
def joined : Graph :=
  (Graph.empty.addNode ⟨.ofKeys ["OktaUser"], .ofList [("email", .str "a")]⟩).addNode
    ⟨.ofKeys ["GitHubUser"], .ofList [("id", .str "gh"), ("email", .str "a")]⟩

theorem reachable_joined : joined.Reachable := .seed _ _ (.seed _ _ .empty)

/-- One of these accounts with another address. -/
def moved : List Record := [SortedMap.ofList [("id", .str "gh"), ("email", .str "b")]]

/-- The schema of users. -/
def user : NodeSchema := linkedUsers.nodeSchema.toOption.get rfl

theorem nodeSchema_linked : linkedOntology.nodeSchema "users" = .ok user := rfl

theorem mapM_linked : ["okta", "github"].mapM (linkedOntology.mapping "users") =
    .ok [linkedOkta, linkedGithub] := rfl

theorem exists_run_linked (now tag : Int) (g : Graph) : ∃ summary,
    linkedOntology.run "users" ["okta", "github"] {} now tag g =
      (.ok summary, Ontology.synced linkedUsers user [linkedOkta, linkedGithub] now tag g) :=
  Ontology.exists_run {} now tag g rfl nodeSchema_linked mapM_linked fault?_linked

end Sample

namespace Ontology

/-- A user and an account with the user's address are joined, and the edge survives the cleanup. -/
theorem links_after_cleanup_of_sample : ∃ summary h n i key e,
    Sample.linkedOntology.run "users" ["okta", "github"] {} 5 1 Sample.joined =
      (.ok summary, h) ∧
    (Job.cleanup Sample.user (.ofTag 1)).run 6 h = (.ok n, i) ∧
    i.edges.find? key = some e ∧ e.joint = ("HAS_ACCOUNT", 3, 2) ∧
    e.properties.find? Names.mark = some (.int 1) := by
  obtain ⟨summary, hrun⟩ := Sample.exists_run_linked 5 1 Sample.joined
  have hlink : LinkQuery.link (Sample.accountLink "GitHubUser") ∈
      queries [Sample.linkedOkta, Sample.linkedGithub] :=
    List.mem_cons_of_mem _ List.mem_cons_self
  obtain ⟨n, i, hcleanup, hjoined, hmarked, -, hnodes⟩ := links_after_cleanup 6 (.ofTag 1)
    Sample.reachable_joined.wellFormed rfl Sample.nodeSchema_linked Sample.mapM_linked rfl hrun
  obtain ⟨user, huser, hlabel, hemail⟩ : ∃ n, i.nodes.find? 3 = some n ∧
      n.hasLabel "User" = true ∧ n.properties.present "email" = some (.str "a") :=
    ⟨_, (hnodes 3 _).2 ⟨rfl, fun _ => rfl⟩, rfl, rfl⟩
  obtain ⟨account, haccount, hother, haddress⟩ : ∃ n, i.nodes.find? 2 = some n ∧
      n.hasLabel "GitHubUser" = true ∧ n.get? "email" = some (.str "a") :=
    ⟨_, (hnodes 2 _).2 ⟨rfl, fun hl => nomatch hl⟩, rfl, rfl⟩
  have haccepts : MatchMode.exact.accepts (account.get? "email") (some (.str "a")) = true := by
    rw [haddress]
    decide
  have hpair : (3, 2) ∈ i.linkedPairs (Sample.accountLink "GitHubUser") :=
    Graph.mem_linkedPairs.2 ⟨user, account, .str "a", huser, hlabel, hemail, haccount, hother,
      haccepts⟩
  obtain ⟨key, e, he, hjoint⟩ := hjoined _ hlink 3 2 hpair
  obtain ⟨htype, hstart, hfinish⟩ := Graph.joint_eq_iff.1 hjoint
  exact ⟨summary, _, n, i, key, e, hrun, hcleanup, he, hjoint,
    hmarked key e he ⟨_, hlink, htype, by rwa [hstart, hfinish]⟩⟩

/-- The account's address changes after the first sync. The next sync and the cleanup of users
leave the edge from the user to the account, which then has the tag of the first. -/
theorem outdated_link_stays : ∃ first g₁ load g₂ second g₃ n g₄ e,
    Sample.linkedOntology.run "users" ["okta", "github"] {} 5 1 Sample.joined =
      (.ok first, g₁) ∧
    Load.nodes {} 6 Sample.githubUser Sample.moved .empty 2 g₁ = (.ok load, g₂) ∧
    Sample.linkedOntology.run "users" ["okta", "github"] {} 7 2 g₂ = (.ok second, g₃) ∧
    Sample.linkedOntology.nodeSchema "users" = .ok Sample.user ∧
    (Job.cleanup Sample.user (.ofTag 2)).run 8 g₃ = (.ok n, g₄) ∧
    g₄.edges.find? 5 = some e ∧ e.edgeType = "HAS_ACCOUNT" ∧
    g₄.hasLabel e.start "User" = true ∧ g₄.hasLabel e.finish "GitHubUser" = true ∧
    e.properties.find? Names.mark = some (.int 1) := by
  obtain ⟨first, hfirst⟩ := Sample.exists_run_linked 5 1 Sample.joined
  have hcheck : ∀ st ∈ Sample.githubUser.loadStatements,
      BoundStatement.check ⟨st, Load.baseParameters .empty 2⟩ = .ok () :=
    Load.forall_check_iff.2 (by decide)
  obtain ⟨load, mid, hload⟩ := Load.nodes_of_check {} 6 Sample.moved
    (synced Sample.linkedUsers Sample.user [Sample.linkedOkta, Sample.linkedGithub] 5 1
      Sample.joined) hcheck
  have hmid := (Load.batches_of_nodes hload).2
  rw [Load.batches_eq_putNodes (by decide) rfl, Load.flatten_chunks] at hmid
  subst hmid
  obtain ⟨second, hsecond⟩ := Sample.exists_run_linked 7 2 _
  have htable : Sample.linkedOntology.table "users" = .ok Sample.linkedUsers := rfl
  have hs := schemaOf_of_nodeSchema htable Sample.nodeSchema_linked
  obtain ⟨n, hcleanup⟩ := hs.run_cleanup 8 (.ofTag 2)
    (synced Sample.linkedUsers Sample.user [Sample.linkedOkta, Sample.linkedGithub] 7 2 _)
  exact ⟨first, _, load, _, second, _, n, _, _, hfirst, hload, hsecond, rfl, hcleanup, rfl, rfl,
    rfl, rfl, rfl⟩

end Ontology

end GraphSync
