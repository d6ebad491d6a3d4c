import GraphSync.Proofs.Sample
import GraphSync.Proofs.Statement.Openings
import GraphSync.Proofs.Statement.Reading

/-!
The text of a compiled statement says what the statement does: equal texts, equal effects. What
begins alike is told apart by how it goes on.
-/
namespace GraphSync

open Placeholder Cypher

namespace Statement

/-- The text of a load or of a sweep: how it begins, and the lines after that. -/
inductive Spelled : Statement → Opening → List String → Prop
  | upsertNodes {u : NodeUpsert} (hlabel : isIdentifier u.label = true)
      (hextra : ∀ l ∈ u.extraLabels, isIdentifier l = true) :
      Spelled (.upsertNodes u) .batch ["MERGE " ++ identified u.label u.properties.id,
        onCreate "i", "SET", assignments (u.properties.assigned.map (assignProperty "i") ++
          u.extraLabels.map ("i:" ++ ·)), returnAffected]
  | upsertEdges {u : EdgeUpsert} (hlabel : isIdentifier u.nodeLabel = true)
      (hid : u.nodeId.WellFormed) :
      Spelled (.upsertEdges u) .batch (("MATCH " ++ identified u.nodeLabel u.nodeId) ::
        (endpointLines "j" u.edge.target ++ mergeEdgeLines u.edge))
  | upsertLinks {u : LinkUpsert} (hlabel : isIdentifier u.source.label = true) :
      Spelled (.upsertLinks u) .batch
        (endpointLines "i" u.source ++ (endpointLines "j" u.edge.target ++ mergeEdgeLines u.edge))
  | sweepAllNodes {label : String} :
      Spelled (.sweepNodes label none) (.nodes label) ["WHERE " ++ conjunction [stale "n"],
        limited "n", "DETACH DELETE n", returnAffected]
  | sweepNodes {label edgeType ownerLabel : String} {s : Scope} (htype : s.edgeType = edgeType)
      (howner : s.owner.label = ownerLabel) :
      Spelled (.sweepNodes label (some s)) (.owned false label edgeType ownerLabel)
        ["WHERE " ++ conjunction (ownerPredicates s ++ [stale "n"]), limited "n",
          "DETACH DELETE n", returnAffected]
  | sweepOwnership {label edgeType ownerLabel : String} {s : Scope}
      (htype : s.edgeType = edgeType) (howner : s.owner.label = ownerLabel) :
      Spelled (.sweepOwnership label s) (.owned true label edgeType ownerLabel)
        ["WHERE " ++ conjunction (ownerPredicates s ++ [stale "r"]), limited "r", "DELETE r",
          returnAffected]
  | sweepEdges {label edgeType ownerLabel : String} {s : Scope} {e : EdgePattern}
      (htype : s.edgeType = edgeType) (howner : s.owner.label = ownerLabel)
      (he : isIdentifier e.edgeType = true) (hother : isIdentifier e.otherLabel = true) :
      Spelled (.sweepEdges label (some s) e) (.owned false label edgeType ownerLabel)
        ["WHERE " ++ conjunction (ownerPredicates s), edgeMatch "n" e, "WHERE " ++ stale "r",
          limited "r", "DELETE r", returnAffected]
  | sweepAllEdges {label : String} {e : EdgePattern} :
      Spelled (.sweepEdges label none e) (.incident label e)
        ["WHERE " ++ stale "r", limited "r", "DELETE r", returnAffected]
  | sweepLinks {label : String} {e : EdgePattern} {s : LinkSweep}
      (hsource : s.sourceLabel = label) (hedge : s.edge = e)
      (hlabel : s.ownerLabel.WellFormed) (hid : s.ownerId.WellFormed) :
      Spelled (.sweepLinks s) (.incident label e) ["WHERE " ++ stale "r",
        "  AND r." ++ Names.ownerLabel ++ " = " ++ s.ownerLabel.text,
        "  AND r." ++ Names.ownerId ++ " = " ++ s.ownerId.text,
        "WITH r LIMIT $" ++ Names.pageSize, "DELETE r", returnAffected]

variable {st st' : Statement} {o o' : Opening} {body body' : List String}

theorem Spelled.cypher_eq (h : Spelled st o body) :
    st.cypher = o.text ++ separated "\n" body := by
  cases h
  all_goals
    subst_vars
    simp only [cypher, nodeUpsertText, edgeUpsertText, linkUpsertText, nodeSweepText,
      ownershipSweepText, edgeSweepText, linkSweepText, removeEdges, lines, List.cons_append,
      List.nil_append, List.append_assoc, intercalate_cons]
    rfl

theorem Spelled.body_ne_nil (h : Spelled st o body) : body ≠ [] := by
  cases h <;> simp [endpointLines]

theorem reveals_upsertNodes {u v : NodeUpsert} (hu : isIdentifier u.label = true)
    (hv : isIdentifier v.label = true) (hux : ∀ l ∈ u.extraLabels, isIdentifier l = true)
    (hvx : ∀ l ∈ v.extraLabels, isIdentifier l = true) :
    Reveals (separated "\n" ["MERGE " ++ identified u.label u.properties.id, onCreate "i", "SET",
        assignments ((assigned u).map assignmentText), returnAffected])
      (separated "\n" ["MERGE " ++ identified v.label v.properties.id, onCreate "i", "SET",
        assignments ((assigned v).map assignmentText), returnAffected])
      (SameEffect (.upsertNodes u) (.upsertNodes v)) := by
  have hwf : ∀ p : NodeProperties, p.id.WellFormed := fun p => (p.wellFormed.refs _ p.id_mem).2
  have hid := reveals_identified hu hv (hwf u.properties) (hwf v.properties)
  have hassign := reveals_assignments (assigned_ne_nil u) (assigned_ne_nil v)
    fun _ he _ hf => reveals_assignmentText hux hvx he hf
  refine (Reveals.line (by decide) (hid.prepend "MERGE ") fun _ =>
    .same_line (.same_line hassign)).mono ?_
  rintro ⟨⟨hlabel, hbare⟩, hkeys⟩
  obtain ⟨hassigned, hextra⟩ := assigned_key hkeys
  exact .upsertNodes hlabel hextra hbare hassigned

/-- The lines that find the other nodes and write an edge to each. -/
theorem reveals_edge {e f : EdgeSchema} :
    Reveals (separated "\n" (endpointLines "j" e.target ++ mergeEdgeLines e))
      (separated "\n" (endpointLines "j" f.target ++ mergeEdgeLines f)) (e.Alike f) := by
  have hj : "j" ∈ nodeVars := by decide
  refine (reveals_endpointLines hj e.valid.target f.valid.target (List.cons_ne_nil _ _)
    (List.cons_ne_nil _ _) fun _ => reveals_mergeEdgeLines).mono ?_
  rintro ⟨htarget, hd, ht, hbare⟩
  exact ⟨htarget, ht, hd, hbare⟩

theorem edgeLines_ne_nil (e : EdgeSchema) :
    endpointLines "j" e.target ++ mergeEdgeLines e ≠ [] :=
  List.append_ne_nil_of_right_ne_nil _ (List.cons_ne_nil _ _)

/-- A source begins with a list that is unwound, or with the pattern of a label alone. -/
theorem separated_source (t : Endpoint) (ls : List String) :
    ∃ z, separated "\n" (endpointLines "i" t ++ ls) = "\n" ++ ("UNWIND " ++ z) ∨
      separated "\n" (endpointLines "i" t ++ ls) =
        "\n" ++ ("MATCH " ++ ("(i:" ++ (t.label ++ (")" ++ z)))) := by
  have hlead : "MATCH (" ++ "i" ++ ":" = "MATCH " ++ "(i:" := by decide
  rw [endpointLines_append]
  cases hm : t.matcher.oneToMany? with
  | none =>
    rw [unwindLines_none hm, List.nil_append, separated, hlead]
    exact ⟨_, .inr (by simp only [String.append_assoc]; rfl)⟩
  | some e =>
    rw [unwindLines_some hm, List.singleton_append, separated]
    exact ⟨_, .inl (by simp only [String.append_assoc]; rfl)⟩

variable {label : String} {id : PropertyRef} {t : Endpoint} {us vs : List String} {p : Prop}

/-- A source is not found by its identity. -/
theorem reveals_identified_source (hl : isIdentifier label = true)
    (ht : isIdentifier t.label = true) :
    Reveals (separated "\n" (("MATCH " ++ identified label id) :: us))
      (separated "\n" (endpointLines "i" t ++ vs)) p := by
  have hfound : ∃ z, separated "\n" (("MATCH " ++ identified label id) :: us) =
      "\n" ++ ("MATCH " ++ ("(i:" ++ (label ++ (" \x7b" ++ z)))) :=
    ⟨_, by simp only [separated, identified, String.append_assoc]; rfl⟩
  obtain ⟨y, hy⟩ := hfound
  obtain ⟨z, hz | hz⟩ := separated_source t vs
  · rw [hy, hz]
    exact (Reveals.of_forks (Forks.append (by decide))).prepend _
  · have hname := (reveals_name hl ht).then_forks (x := y) (y := z) (q := p)
      (by decide : Forks " \x7b" ")") (by decide) (by decide)
    rw [hy, hz]
    exact ((hname.prepend _).prepend _).prepend _

theorem reveals_merged_source {a : String} :
    Reveals (separated "\n" (("MERGE " ++ a) :: us))
      (separated "\n" (endpointLines "i" t ++ vs)) p := by
  rw [separated, String.append_assoc]
  obtain ⟨z, hz | hz⟩ := separated_source t vs <;> rw [hz]
  all_goals exact (Reveals.of_forks (Forks.append (by decide))).prepend _

theorem forks_merge_match {a b : String} : Forks ("MERGE " ++ a) ("MATCH " ++ b) :=
  Forks.append (by decide)

/-- Loads of nodes go on with `MERGE`, those of edges with what they find. -/
theorem Spelled.reveals_batch (h : Spelled st .batch body) (h' : Spelled st' .batch body') :
    Reveals (separated "\n" body) (separated "\n" body') (SameEffect st st') := by
  cases h <;> cases h'
  case upsertNodes.upsertNodes u hl hx v hl' hx' =>
    rw [assigned_text, assigned_text]
    exact reveals_upsertNodes hl hl' hx hx'
  case upsertEdges.upsertEdges u hl hid v hl' hid' =>
    have hfound := (reveals_identified hl hl' hid hid').prepend "MATCH "
    refine (Reveals.line (by decide) hfound fun _ => reveals_edge).mono ?_
    rintro ⟨⟨hlabel, hbare⟩, hedge⟩
    exact .upsertEdges hlabel hbare hedge
  case upsertLinks.upsertLinks u hl v hl' =>
    have hi : "i" ∈ nodeVars := by decide
    refine (reveals_endpointLines hi hl hl' (edgeLines_ne_nil _) (edgeLines_ne_nil _)
      fun _ => reveals_edge).mono ?_
    rintro ⟨hsource, hedge⟩
    exact .upsertLinks hsource hedge
  case upsertNodes.upsertEdges => exact .of_forks_line forks_merge_match
  case upsertEdges.upsertNodes => exact (Reveals.of_forks_line forks_merge_match).symm
  case upsertNodes.upsertLinks => exact reveals_merged_source
  case upsertLinks.upsertNodes => exact reveals_merged_source.symm
  case upsertEdges.upsertLinks u hl hid v hl' => exact reveals_identified_source hl hl'
  case upsertLinks.upsertEdges u hl v hl' hid => exact (reveals_identified_source hl' hl).symm

theorem reveals_sweep {var : String} {s s' : Scope} (hus : us ≠ []) :
    Reveals (separated "\n" (("WHERE " ++ conjunction (ownerPredicates s ++ [stale var])) :: us))
      (separated "\n" (("WHERE " ++ conjunction (ownerPredicates s' ++ [stale var])) :: us))
      (s.owner.matcher.comparisons = s'.owner.matcher.comparisons) := by
  have hne : ∀ s, conditions s ++ [none] ≠ [] := fun s =>
    List.append_ne_nil_of_right_ne_nil _ (List.cons_ne_nil _ _)
  rw [ownerPredicates_append_stale, ownerPredicates_append_stale]
  refine (reveals_where (hne s) (hne s') hus hus (fun _ he _ hf => reveals_conditionText he hf)
    fun _ => .refl _).mono ?_
  exact fun h => comparisons_of_key h.1

/-- Sweeps of the nodes of an owner ask whether a node is stale where sweeps of edges stop. -/
theorem reveals_nodes_edges {s s' : Scope} (hus : us ≠ []) (hvs : vs ≠ []) :
    Reveals (separated "\n" (("WHERE " ++ conjunction (ownerPredicates s ++ [stale "n"])) :: us))
      (separated "\n" (("WHERE " ++ conjunction (ownerPredicates s')) :: vs)) p := by
  have hne : conditions s ++ [none] ≠ [] :=
    List.append_ne_nil_of_right_ne_nil _ (List.cons_ne_nil _ _)
  rw [ownerPredicates_append_stale, ownerPredicates_eq "n"]
  have hnever : (conditions s ++ [none]).map conditionKey = (conditions s').map conditionKey →
      Reveals (separated "\n" us) (separated "\n" vs) p := fun h => absurd h (conditions_ne s s')
  exact (reveals_where hne (conditions_ne_nil s') hus hvs (fun _ he _ hf =>
    reveals_conditionText he (List.mem_append_left _ hf)) hnever).mono And.right

theorem Spelled.reveals_owned {named : Bool} {edgeType ownerLabel : String}
    (h : Spelled st (.owned named label edgeType ownerLabel) body)
    (h' : Spelled st' (.owned named label edgeType ownerLabel) body') :
    Reveals (separated "\n" body) (separated "\n" body') (SameEffect st st') := by
  cases h <;> cases h'
  case sweepNodes.sweepNodes s ht ho s' ht' ho' =>
    exact (reveals_sweep (List.cons_ne_nil _ _)).mono fun h =>
      .sweepNodes ⟨ht.trans ht'.symm, ho.trans ho'.symm, h⟩
  case sweepOwnership.sweepOwnership s ht ho s' ht' ho' =>
    exact (reveals_sweep (List.cons_ne_nil _ _)).mono fun h =>
      .sweepOwnership ⟨ht.trans ht'.symm, ho.trans ho'.symm, h⟩
  case sweepEdges.sweepEdges s e he hl ht ho s' e' he' hl' ht' ho' =>
    have hs : "s" ∈ nodeVars := by decide
    have hmatch := reveals_edgeMatch (Reveals.refl "n") he hl he' hl'
    refine (reveals_comparisons hs (List.cons_ne_nil _ _) (List.cons_ne_nil _ _) fun _ =>
      .line (by decide) hmatch fun _ => .refl _).mono ?_
    rintro ⟨h, ⟨-, rfl⟩, -⟩
    exact .sweepEdges ⟨ht.trans ht'.symm, ho.trans ho'.symm, h⟩
  case sweepNodes.sweepEdges =>
    exact reveals_nodes_edges (List.cons_ne_nil _ _) (List.cons_ne_nil _ _)
  case sweepEdges.sweepNodes =>
    exact (reveals_nodes_edges (List.cons_ne_nil _ _) (List.cons_ne_nil _ _)).symm

theorem Spelled.reveals_incident {e : EdgePattern} (h : Spelled st (.incident label e) body)
    (h' : Spelled st' (.incident label e) body') :
    Reveals (separated "\n" body) (separated "\n" body') (SameEffect st st') := by
  have hforks : ∀ r : PropertyRef,
      Forks (limited "r") ("  AND r." ++ Names.ownerLabel ++ " = " ++ r.text) := fun r => by
    simp only [String.append_assoc]
    exact Forks.append_right (by decide)
  cases h <;> cases h'
  case sweepAllEdges.sweepAllEdges => exact (Reveals.refl _).mono fun _ => .refl _
  case sweepLinks.sweepLinks s hlabel hid hsource hedge s' hlabel' hid' hsource' hedge' =>
    have hl := (PropertyRef.reveals_text hlabel hlabel').prepend
      ("  AND r." ++ Names.ownerLabel ++ " = ")
    have hi := (PropertyRef.reveals_text hid hid').prepend ("  AND r." ++ Names.ownerId ++ " = ")
    refine (Reveals.same_line (.line (by decide) hl fun _ =>
      .line (by decide) hi fun _ => .refl _)).mono ?_
    rintro ⟨hownerLabel, hownerId, -⟩
    exact .sweepLinks (hsource.trans hsource'.symm) (hedge.trans hedge'.symm) hownerLabel hownerId
  case sweepAllEdges.sweepLinks => exact .same_line (.of_forks_line (hforks _))
  case sweepLinks.sweepAllEdges => exact (Reveals.same_line (.of_forks_line (hforks _))).symm

theorem Spelled.reveals (h : Spelled st o body) (h' : Spelled st' o body') :
    Reveals (separated "\n" body) (separated "\n" body') (SameEffect st st') := by
  cases o with
  | batch => exact h.reveals_batch h'
  | nodes label =>
    cases h
    cases h'
    exact (Reveals.refl _).mono fun _ => .refl _
  | owned named label edgeType ownerLabel => exact h.reveals_owned h'
  | incident label e => exact h.reveals_incident h'

/-- Statements with the same text have the same effect. -/
theorem Spelled.sameEffect (ho : o.Named) (ho' : o'.Named) (h : Spelled st o body)
    (h' : Spelled st' o' body') (heq : st.cypher = st'.cypher) : SameEffect st st' := by
  obtain ⟨l, ls, rfl⟩ := List.exists_cons_of_ne_nil h.body_ne_nil
  obtain ⟨l', ls', rfl⟩ := List.exists_cons_of_ne_nil h'.body_ne_nil
  rw [h.cypher_eq, h'.cypher_eq] at heq
  have hrest : o = o' → Reveals ("\n" ++ (l ++ separated "\n" ls))
      ("\n" ++ (l' ++ separated "\n" ls')) (SameEffect st st') := by
    rintro rfl
    exact h.reveals h'
  rw [separated, separated] at heq
  exact ((Opening.reveals ho ho' hrest).of_eq heq).2

theorem spelled_cleanup {s : NodeSchema} (h : st ∈ s.cleanupStatements) :
    ∃ o body, o.Named ∧ Spelled st o body := by
  have hl := s.valid.label
  have hscope : ∀ scope ∈ s.scope, ∀ named,
      (Opening.owned named s.label scope.edgeType scope.owner.label).Named := fun scope hs _ =>
    have hnamed := NodeSchema.named_of_mem_scope hs
    ⟨hl, hnamed.edgeType, hnamed.owner⟩
  have hincident : ∀ e : EdgeSchema, (Opening.incident s.label e.pattern).Named := fun e =>
    ⟨hl, e.valid.edgeType, e.valid.target⟩
  simp only [NodeSchema.cleanupStatements, List.cons_append, List.mem_cons, List.mem_append,
    List.mem_map, Option.mem_toList] at h
  rcases h with rfl | ⟨e, -, rfl⟩ | hmem
  · cases hs : s.scope with
    | none => exact ⟨.nodes s.label, _, hl, .sweepAllNodes⟩
    | some scope => exact ⟨_, _, hscope scope hs false, .sweepNodes rfl rfl⟩
  · cases hs : s.scope with
    | none => exact ⟨_, _, hincident e, .sweepAllEdges⟩
    | some scope =>
      exact ⟨_, _, hscope scope hs false, .sweepEdges rfl rfl e.valid.edgeType e.valid.target⟩
  · rw [NodeSchema.ownershipSweep] at hmem
    split at hmem
    · next scope hs =>
      obtain rfl := Option.some_inj.1 hmem
      exact ⟨_, _, hscope scope hs true, .sweepOwnership rfl rfl⟩
    · obtain ⟨e, -, rfl⟩ := Option.map_eq_some_iff.1 hmem
      exact ⟨_, _, hincident e, .sweepAllEdges⟩

/-- A compiled statement creates an index, or is spelled as a load or as a sweep. -/
theorem Compiled.spelled (h : Compiled st) : (∃ t : IndexTarget, t.Named ∧ st = .createIndex t) ∨
    ∃ o body, o.Named ∧ Spelled st o body := by
  have hindex : ∀ {targets : List IndexTarget}, (∀ t ∈ targets, t.Named) → st ∈ indexAll targets →
      ∃ t : IndexTarget, t.Named ∧ st = .createIndex t := by
    intro targets ht hst
    obtain ⟨t, hmem, rfl⟩ := List.mem_map.1 hst
    exact ⟨t, ht t (mem_distinctTargets.1 hmem), rfl⟩
  cases h with
  | load s h =>
    rw [NodeSchema.loadStatements_eq] at h
    rcases List.mem_cons.1 h with rfl | h
    · exact .inr ⟨.batch, _, trivial, .upsertNodes s.valid.label s.valid.extraLabels⟩
    · obtain ⟨e, -, rfl⟩ := List.mem_map.1 h
      have hid := (s.properties.wellFormed.refs _ s.properties.id_mem).2
      exact .inr ⟨.batch, _, trivial, .upsertEdges s.valid.label hid⟩
  | cleanup s h => exact .inr (spelled_cleanup h)
  | index s h => exact .inl (hindex (fun _ => NodeSchema.named_of_mem_indexTargets) h)
  | linkLoad e h =>
    obtain ⟨source, hs, rfl⟩ := eq_upsertLinks_of_ok h
    exact .inr ⟨.batch, _, trivial, .upsertLinks (e.valid.source source hs)⟩
  | linkCleanup e h =>
    obtain ⟨-, source, ownerLabel, ownerId, hsource, hlabel, hid, rfl⟩ := eq_sweepLinks_of_ok h
    have hwf : ∀ {name r}, e.properties.mapping.ref? name = some r → r.WellFormed := fun hr =>
      (e.properties.wellFormed.refs _ (Mapping.mem_of_ref? hr)).2
    have hnamed : (Opening.incident source.label e.pattern).Named :=
      ⟨e.valid.source source hsource, e.valid.edgeType, e.valid.target⟩
    exact .inr ⟨_, _, hnamed, .sweepLinks rfl rfl (hwf hlabel) (hwf hid)⟩
  | linkIndex e h hst =>
    obtain ⟨targets, htargets, rfl⟩ := exists_targets_of_ok h
    exact .inl (hindex htargets hst)

theorem indexText_eq (t : IndexTarget) : indexText t =
    "CREATE INDEX IF NOT EXISTS FOR (n:" ++ (t.label ++ (") ON (n." ++ (t.property ++ ")"))) := by
  unfold indexText
  simp only [String.append_assoc]

theorem eq_of_indexText {t t' : IndexTarget} (ht : t.Named) (ht' : t'.Named)
    (h : indexText t = indexText t') : t = t' := by
  obtain ⟨label, property⟩ := t
  obtain ⟨label', property'⟩ := t'
  have hon : Breaks ") ON (n." := by decide
  have hproperty : Reveals (property ++ ")") (property' ++ ")") (property = property') :=
    (reveals_name ht.property ht'.property).append_same (by decide)
  have hall := (reveals_name ht.label ht'.label).between hon fun _ => hproperty
  rw [indexText_eq, indexText_eq] at h
  obtain ⟨rfl, rfl⟩ := (hall.prepend _).of_eq h
  rfl

theorem Spelled.ne_indexText (h : Spelled st o body) (t : IndexTarget) :
    indexText t ≠ st.cypher := by
  have hforks : ∀ s x, Forks "CREATE INDEX IF NOT EXISTS FOR (n:" s →
      Forks (indexText t) (s ++ x) := fun s x hs => indexText_eq t ▸ hs.append
  have hopening : ∃ s x, o.text = s ++ x ∧ Forks "CREATE INDEX IF NOT EXISTS FOR (n:" s := by
    cases o with
    | batch => exact ⟨"UNWIND $", _, String.append_assoc, by decide⟩
    | nodes label => exact ⟨"MATCH (n:", _, String.append_assoc, by decide⟩
    | owned _ _ _ _ | incident _ _ => exact ⟨"MATCH ", _, rfl, by decide⟩
  obtain ⟨s, x, hs, hcreate⟩ := hopening
  intro heq
  rw [h.cypher_eq, hs, String.append_assoc] at heq
  exact (Reveals.of_forks (hforks s _ hcreate)).of_eq heq

/-- Compiled statements with the same text do the same to every graph. -/
theorem text_determines_effect (h : Compiled st) (h' : Compiled st')
    (heq : st.cypher = st'.cypher) (now : Int) (g : Graph) (params : Parameters) :
    Graph.apply now g st params = Graph.apply now g st' params := by
  obtain ⟨t, ht, rfl⟩ | ⟨o, body, ho, hst⟩ := h.spelled
  · obtain ⟨t', ht', rfl⟩ | ⟨o', body', -, hst'⟩ := h'.spelled
    · rw [eq_of_indexText ht ht' heq]
    · exact absurd heq (hst'.ne_indexText t)
  · obtain ⟨t', -, rfl⟩ | ⟨o', body', ho', hst'⟩ := h'.spelled
    · exact absurd heq.symm (hst.ne_indexText t')
    · exact hst.sameEffect ho ho' hst' heq now g params

end Statement

/-- Buckets whose identity comes last and is flagged; their load has the text of the others. -/
def Sample.flagged : NodeSchema :=
  { Sample.bucket with
    properties := {
      mapping := [(Names.mark, .batch Names.loadTag),
        (Names.id, { PropertyRef.field "id" with extraIndex := true })]
      wellFormed := ⟨by decide, by decide⟩
      unreserved := by decide
      marked := by decide
      identified := by decide }
    valid := NodePlan.fault?_eq_none_iff.1 (by decide) }

theorem Statement.text_determines_effect_of_sample :
    Sample.flagged.properties.mapping ≠ Sample.bucket.properties.mapping ∧
      Graph.apply 3 Sample.start (.upsertNodes Sample.flagged.upsert) Sample.params =
        Graph.apply 3 Sample.start (.upsertNodes Sample.bucket.upsert) Sample.params :=
  ⟨by decide, text_determines_effect (.load Sample.flagged List.mem_cons_self)
    (.load Sample.bucket List.mem_cons_self) rfl 3 Sample.start Sample.params⟩

end GraphSync
