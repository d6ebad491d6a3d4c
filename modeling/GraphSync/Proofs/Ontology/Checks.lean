import GraphSync.Proofs.Ontology.Links

/-! What is checked of the links of a mapping, and when. Adding a mapping looks at none of them: a
name that a link asks for and a sync has no value for shows up when the link is run, and then the
concept nodes are already there. -/
namespace GraphSync

namespace LinkQuery

variable {q : LinkQuery} {l : PropertyLink} {qs : List LinkQuery} {name : String}

/-- The first query that a sync cannot run is a link, and it asks for a name without a value. -/
def FirstUnbound (qs : List LinkQuery) (name : String) : Prop :=
  ∃ before l after, qs = before ++ link l :: after ∧ (∀ q ∈ before, q.fault? = none) ∧
    (link l).unbound? = some name

theorem fault?_eq_missing_iff : q.fault? = some (.missingParameter "link_by_property" name) ↔
    ∃ l, q = link l ∧ (link l).unbound? = some name := by
  rw [fault?.eq_def]
  cases q with
  | link l =>
    cases hunbound : (link l).unbound? with
    | none => simp [hunbound]
    | some other => simp [hunbound, statement, Statement.kind]
  | raw text =>
    cases hunbound : (raw text).unbound? with
    | none => simp
    | some other => simp [statement, Statement.kind]

theorem findSome?_eq_missing_iff :
    qs.findSome? fault? = some (.missingParameter "link_by_property" name) ↔
      FirstUnbound qs name := by
  rw [List.findSome?_eq_some_iff]
  constructor
  · rintro ⟨before, q, after, hqs, hq, hbefore⟩
    obtain ⟨l, rfl, hunbound⟩ := fault?_eq_missing_iff.1 hq
    exact ⟨before, l, after, hqs, hbefore, hunbound⟩
  · rintro ⟨before, l, after, hqs, hbefore, hunbound⟩
    exact ⟨before, link l, after, hqs, fault?_eq_missing_iff.2 ⟨l, rfl, hunbound⟩, hbefore⟩

/-- A name other than the two that a sync binds has no value, wherever a link asks for it. -/
theorem unbound?_of_named (hl : l.Named) (hname : isIdentifier name = true)
    (htag : name ≠ Names.sweepTag) (hsize : name ≠ Names.pageSize) :
    (link { l with edgeType := l.edgeType ++ "$" ++ name }).unbound? = some name := by
  cases hfirst : (link { l with edgeType := l.edgeType ++ "$" ++ name }).unbound? with
  | some asked =>
    have hfree := List.find?_some hfirst
    have hmem := (hl.mem_parameters_iff hname).1 (List.mem_of_find?_eq_some hfirst)
    simp only [decide_eq_true_eq] at hfree
    rw [hmem.resolve_right hfree.1]
  | none =>
    have hbound := List.find?_eq_none.1 hfirst name
      ((hl.mem_parameters_iff hname).2 (.inl rfl))
    simp [htag, hsize] at hbound

end LinkQuery

namespace Ontology

variable {o other : Ontology} {t : ConceptTable} {s : NodeSchema} {concept : String}
  {m : ModuleMapping} {modules : List String} {mappings : List ModuleMapping}

/-- A mapping is added if the concept is there and has none of its module. -/
theorem addMapping_eq_ok_iff : o.addMapping concept m = .ok other ↔
    ∃ t, o.table concept = .ok t ∧ t.modules.contains m.name = false ∧
      other = ⟨o.tables.insert concept { t with modules := t.modules.insert m.name m }⟩ := by
  rw [addMapping, bind_eq_ok_iff]
  refine exists_congr fun t => and_congr_right fun _ => ?_
  cases t.modules.contains m.name with
  | true => simp
  | false => simp [eq_comm]

/-- A sync fails at a link that asks for a name without a value, and at no other, and it fails after
it has written the concept nodes. -/
theorem run_eq_missing_iff (config : LoaderConfig) (now tag : Int) (g : Graph)
    (ht : o.table concept = .ok t) (hschema : o.nodeSchema concept = .ok s)
    (hm : modules.mapM (o.mapping concept) = .ok mappings) :
    ∃ load, Load.nodes config now s
        (Merge.merge t.concept.idField (sourceRecords mappings g)) .empty tag g =
          (.ok load, withConcepts t s mappings now tag g) ∧
      ∀ name, (∃ h, o.run concept modules config now tag g =
          (.error (.graph (.missingParameter "link_by_property" name)), h) ∧
            h.nodes = (withConcepts t s mappings now tag g).nodes) ↔
        LinkQuery.FirstUnbound (queries mappings) name := by
  obtain ⟨load, hload, hrun⟩ := run_eq config now tag g ht hschema hm
  refine ⟨load, hload, fun name => ?_⟩
  rw [hrun, ← LinkQuery.findSome?_eq_missing_iff]
  constructor
  · rintro ⟨h, hfail, -⟩
    obtain ⟨hresult, -⟩ := Prod.mk.inj hfail
    cases hfault : (queries mappings).findSome? LinkQuery.fault? with
    | none =>
      rw [hfault] at hresult
      cases hresult
    | some e =>
      rw [hfault] at hresult
      cases hresult
      rfl
  · intro hfault
    rw [hfault]
    exact ⟨_, rfl, Graph.nodes_markJoints⟩

/-- Adding a mapping looks at none of its links. A link of identifiers asks for the tag alone, and
one whose type goes on with a dollar sign and a name asks for the name too, which no sync has a
value for. A sync fails at such a link, and it fails after it has written the concept nodes. -/
theorem addMapping_checks_no_link (haccept : o.addMapping concept m = .ok other) :
    (∀ links, ∃ others, o.addMapping concept { m with links := links } = .ok others) ∧
    (∀ l : PropertyLink, l.Named →
      (Statement.linkByProperty l).parameters = [Names.sweepTag] ∧
      ∀ name, isIdentifier name = true → name ≠ Names.sweepTag → name ≠ Names.pageSize →
        (LinkQuery.link { l with edgeType := l.edgeType ++ "$" ++ name }).unbound? =
          some name) ∧
    other.mapping concept m.name = .ok m ∧
    ∀ {t s modules mappings}, other.table concept = .ok t → other.nodeSchema concept = .ok s →
      modules.mapM (other.mapping concept) = .ok mappings → ∀ config now tag g,
      ∃ load, Load.nodes config now s
          (Merge.merge t.concept.idField (sourceRecords mappings g)) .empty tag g =
            (.ok load, withConcepts t s mappings now tag g) ∧
        ∀ name, (∃ h, other.run concept modules config now tag g =
            (.error (.graph (.missingParameter "link_by_property" name)), h) ∧
              h.nodes = (withConcepts t s mappings now tag g).nodes) ↔
          LinkQuery.FirstUnbound (queries mappings) name := by
  obtain ⟨t, ht, hnew, rfl⟩ := addMapping_eq_ok_iff.1 haccept
  refine ⟨fun links => ?_, fun l hl => ?_, ?_, fun ht hschema hm config now tag g => ?_⟩
  · exact ⟨_, addMapping_eq_ok_iff.2 ⟨t, ht, hnew, rfl⟩⟩
  · exact ⟨hl.parameters_eq, fun name hname htag hsize =>
      LinkQuery.unbound?_of_named hl hname htag hsize⟩
  · have htable : table ⟨o.tables.insert concept
        { t with modules := t.modules.insert m.name m }⟩ concept =
          .ok { t with modules := t.modules.insert m.name m } := by
      rw [table, SortedMap.find?_insert, if_pos rfl]
    rw [mapping, bind_eq_ok_iff]
    refine ⟨_, htable, ?_⟩
    rw [SortedMap.find?_insert, if_pos rfl]
  · exact run_eq_missing_iff config now tag g ht hschema hm

end Ontology

namespace Sample

/-- Users of one module, whose link to their accounts asks for a kind in its type. -/
def kinds : ModuleMapping :=
  { okta with
    links := [⟨"", .link
      { accountLink "OktaUser" with
        edgeType := (accountLink "OktaUser").edgeType ++ "$" ++ "KIND" }⟩] }

/-- The concept of users, with what some modules contribute to it. -/
def usersOf (modules : List ModuleMapping) : Ontology :=
  ⟨.ofList [("users", { users with modules := .ofList (modules.map fun m => (m.name, m)) })]⟩

end Sample

namespace Ontology

/-- The mapping is added, and its sync fails at the link with a user written already. -/
theorem addMapping_checks_no_link_of_sample : ∃ h user,
    (Sample.usersOf []).addMapping "users" Sample.kinds = .ok (Sample.usersOf [Sample.kinds]) ∧
    (Sample.usersOf [Sample.kinds]).run "users" ["okta"] {} 5 1 Sample.accounts =
      (.error (.graph (.missingParameter "link_by_property" "KIND")), h) ∧
    Sample.accounts.nodes.find? 4 = none ∧ h.nodes.find? 4 = some user ∧
    user.hasLabel "User" = true ∧ user.get? Names.mark = some (.int 1) := by
  have haccept : (Sample.usersOf []).addMapping "users" Sample.kinds =
      .ok (Sample.usersOf [Sample.kinds]) := rfl
  obtain ⟨-, hlinks, -, hruns⟩ := addMapping_checks_no_link haccept
  have hunbound := (hlinks (Sample.accountLink "OktaUser")
    (Sample.named_accountLink (by decide))).2 "KIND" (by decide) (by decide) (by decide)
  have hmappings : ["okta"].mapM ((Sample.usersOf [Sample.kinds]).mapping "users") =
      .ok [Sample.kinds] := rfl
  obtain ⟨load, hload, hfails⟩ := hruns rfl rfl hmappings {} 5 1 Sample.accounts
  obtain ⟨h, hrun, hnodes⟩ := (hfails "KIND").2 ⟨[], _, [], rfl, nofun, hunbound⟩
  exact ⟨h, _, haccept, hrun, rfl, (congrArg (·.find? 4) hnodes).trans rfl, rfl, rfl⟩

end Ontology

end GraphSync
