import GraphSync.Proofs.Cleanup.Sweep
import GraphSync.Proofs.Graph.WellFormed
import GraphSync.Proofs.Statement.Dependence
import GraphSync.Proofs.Value

/-! Runs of sweeps that notice when a parameter is taken away. -/
namespace GraphSync

variable {st : Statement} {name label : String} {params : Parameters} {record : Record}
  {r : PropertyRef} {s : Scope} {key : Nat}

namespace Statement

/-- One for every parameter: the tag, the size of a page and the values of an owner. -/
def sweepProbe (st : Statement) : Parameters := Record.filled st.reads (.int 1)

theorem resolve_sweepProbe (hr : r ∈ st.references) (hsource : r.source = .batchParameter) :
    r.resolve record st.sweepProbe = some (.int 1) := by
  have hmem : r.name ∈ r.batchNames := PropertyRef.mem_batchNames.2 ⟨hsource, rfl⟩
  have hname : r.name ∈ st.reads :=
    List.mem_append_right _ (List.mem_flatMap.2 ⟨r, hr, hmem⟩)
  simp only [PropertyRef.resolve, PropertyRef.find?, hsource, sweepProbe,
    Record.find?_filled hname]
  rfl

end Statement

namespace Graph

variable {g : Graph} {now : Int}

/-- A sweep does not run without its tag and the size of its pages. -/
theorem bound_of_sweepPage {find : Json → List Nat} {remove : Graph → List Nat → Graph}
    {done : Graph × Nat} (h : g.sweepPage params find remove = .ok done) :
    params.contains Names.sweepTag = true ∧ params.contains Names.pageSize = true := by
  have hbound : ∀ {other v}, Parameters.require params other = .ok v →
      params.contains other = true := by
    intro other v hv
    rw [Parameters.require] at hv
    split at hv
    · exact SortedMap.contains_eq_true_iff.2 ⟨_, ‹_›⟩
    · cases hv
  obtain ⟨tag, htag, hrest⟩ := bind_eq_ok_iff.1 h
  obtain ⟨size, hsize, -⟩ := bind_eq_ok_iff.1 hrest
  obtain ⟨v, hv, -⟩ := bind_eq_ok_iff.1 hsize
  exact ⟨hbound htag, hbound hv⟩

theorem bound_of_apply {w : Sweep} {tag : Json} {done : Graph × Nat}
    (hw : st.sweep? params tag = some w) {other : Parameters}
    (h : g.apply now st other = .ok done) :
    other.contains Names.sweepTag = true ∧ other.contains Names.pageSize = true := by
  cases st <;> cases hw
  · exact bound_of_sweepPage h
  · exact bound_of_sweepPage h
  · exact bound_of_sweepPage h
  · exact bound_of_sweepPage h

/-- A node that an owner owns, with an edge to itself; nothing but the owner has properties. -/
def owned (s : Scope) (labels : List String) (edgeType : String) : Graph :=
  (((Graph.empty.addNode ⟨.ofKeys [s.owner.label], .filled s.owner.matcher.keys (.int 1)⟩).addNode
    ⟨.ofKeys labels, .empty⟩).addEdge ⟨s.edgeType, 1, 2, .empty⟩).addEdge ⟨edgeType, 2, 2, .empty⟩

variable {labels : List String} {edgeType : String}

theorem hasLabel_owned (hlabel : label ∈ labels) :
    (owned s labels edgeType).hasLabel 2 label = true := by
  have hhas : Node.hasLabel ⟨.ofKeys labels, .empty⟩ label = true :=
    Node.hasLabel_ofKeys.trans (decide_eq_true hlabel)
  exact hasLabel_iff.2 ⟨_, rfl, hhas⟩

theorem isOwner_owned (hvalid : ∀ e ∈ s.owner.matcher.mapping, NodePlan.IdentifiesOwner e.2)
    (hvalues : ∀ e ∈ s.owner.matcher.mapping, e.2.resolve .empty params = some (.int 1)) :
    (owned s labels edgeType).isOwner params s 1 = true := by
  have hhas : Node.hasLabel ⟨.ofKeys [s.owner.label], .filled s.owner.matcher.keys (.int 1)⟩
      s.owner.label = true :=
    Node.hasLabel_ofKeys.trans (decide_eq_true (List.mem_singleton_self _))
  refine isOwner_iff.2 ⟨_, rfl, hhas, List.all_eq_true.2 fun e he => ?_⟩
  have hmany := (hvalid e he).isOneToMany
  have hkey : e.1 ∈ s.owner.matcher.keys := List.mem_map_of_mem he
  rw [(hvalid e he).1, hmany, if_neg Bool.false_ne_true, hvalues e he, Node.get?,
    Record.find?_filled hkey]
  rfl

theorem isOwned_owned (hvalid : ∀ e ∈ s.owner.matcher.mapping, NodePlan.IdentifiesOwner e.2)
    (hvalues : ∀ e ∈ s.owner.matcher.mapping, e.2.resolve .empty params = some (.int 1)) :
    (owned s labels edgeType).isOwned params s 2 = true :=
  isOwned_iff.2 ⟨3, _, rfl, rfl, rfl, isOwner_owned hvalid hvalues⟩

/-- A node with an edge to itself that is attributed to the owner. -/
def linked (sweep : LinkSweep) : Graph :=
  (Graph.empty.addNode ⟨.ofKeys [sweep.sourceLabel, sweep.edge.otherLabel], .empty⟩).addEdge
    ⟨sweep.edge.edgeType, 1, 1, .filled [Names.ownerLabel, Names.ownerId] (.int 1)⟩

theorem isAttributed_linked {sweep : LinkSweep}
    (hlabel : sweep.ownerLabel.resolve .empty params = some (.int 1))
    (hid : sweep.ownerId.resolve .empty params = some (.int 1)) :
    (linked sweep).isAttributed params sweep
      ⟨sweep.edge.edgeType, 1, 1, .filled [Names.ownerLabel, Names.ownerId] (.int 1)⟩ = true := by
  have hhas : ∀ l ∈ [sweep.sourceLabel, sweep.edge.otherLabel],
      (linked sweep).hasLabel 1 l = true := by
    intro l hl
    exact hasLabel_iff.2 ⟨_, rfl, Node.hasLabel_ofKeys.trans (decide_eq_true hl)⟩
  have hends : ∀ (r : Record) (d : Direction),
      Edge.ends ⟨sweep.edge.edgeType, 1, 1, r⟩ d = (1, 1) := by
    intro r d
    cases d <;> rfl
  have hsource := hhas sweep.sourceLabel List.mem_cons_self
  have hother := hhas sweep.edge.otherLabel (List.mem_cons_of_mem _ (List.mem_singleton_self _))
  simp only [isAttributed, hasPattern, hends, hsource, hother, hlabel, hid, Bool.and_true,
    beq_self_eq_true]
  rfl

/-- No node is an owner when a value is missing that an owner is told by. -/
theorem isOwner_erase (h : name ∈ s.owner.matcher.mapping.batchNames) :
    g.isOwner (SortedMap.erase params name) s key = false := by
  obtain ⟨e, he, hmem⟩ := Mapping.mem_batchNames.1 h
  refine Bool.eq_false_iff.2 fun howner => ?_
  obtain ⟨n, -, -, haccepts⟩ := isOwner_iff.1 howner
  have hholds := List.all_eq_true.1 haccepts e he
  rw [PropertyRef.resolve_erase hmem, ite_self] at hholds
  simp [MatchMode.accepts] at hholds

theorem isOwned_erase (h : name ∈ s.owner.matcher.mapping.batchNames) :
    g.isOwned (SortedMap.erase params name) s key = false := by
  refine Bool.eq_false_iff.2 fun howned => ?_
  obtain ⟨-, e, -, -, -, howner⟩ := isOwned_iff.1 howned
  rw [isOwner_erase h] at howner
  cases howner

end Graph

namespace Statement

open GraphSync.Graph

/-- A sweep that finds something on a graph, and nothing when a reference lacks its value. -/
theorem needs_of_targets {w w' : Sweep}
    (hfixed : st.fixedNames = [Names.sweepTag, Names.pageSize]) (hwritten : st.written = [])
    (hw : st.sweep? st.sweepProbe (.int 1) = some w)
    (hw' : st.sweep? (SortedMap.erase st.sweepProbe name) (.int 1) = some w')
    (hfound : name ∈ st.located.flatMap PropertyRef.batchNames →
      ∃ g key, key ∈ w.targets g ∧ w'.targets g = [])
    (hcheck : BoundStatement.check ⟨st, st.sweepProbe⟩ = .ok ()) (hname : name ∈ st.reads) :
    st.Needs name := by
  obtain ⟨g, hfound⟩ : ∃ g, name ∈ st.located.flatMap PropertyRef.batchNames →
      ∃ key, key ∈ w.targets g ∧ w'.targets g = [] := by
    by_cases h : name ∈ st.located.flatMap PropertyRef.batchNames
    · obtain ⟨g, hg⟩ := hfound h
      exact ⟨g, fun _ => hg⟩
    · exact ⟨.empty, fun hin => absurd hin h⟩
  have hbound : ∀ other ∈ st.fixedNames, st.sweepProbe.find? other = some (.int 1) :=
    fun other hother => Record.find?_filled (List.mem_append_left _ hother)
  rw [hfixed] at hbound
  have htag := hbound Names.sweepTag List.mem_cons_self
  have hpage := hbound Names.pageSize (List.mem_cons_of_mem _ List.mem_cons_self)
  have hsize : Parameters.pageSize st.sweepProbe = .ok 1 := by
    simp only [Parameters.pageSize, Parameters.require, hpage]
    rfl
  refine ⟨0, g, _, hcheck, fun heq => ?_⟩
  have hrun : g.apply 0 st st.sweepProbe = _ := apply_sweep hw htag hsize
  obtain ⟨htag', hpage'⟩ := bound_of_apply hw (heq.trans hrun)
  have hne : ∀ other, SortedMap.contains (SortedMap.erase st.sweepProbe name) other = true →
      other ≠ name := by
    rintro other hother rfl
    rw [SortedMap.contains, SortedMap.find?_erase, if_pos rfl] at hother
    cases hother
  have hkept : ∀ other, other ≠ name →
      SortedMap.find? (SortedMap.erase st.sweepProbe name) other = st.sweepProbe.find? other := by
    intro other hother
    rw [SortedMap.find?_erase, if_neg hother]
  have htag'' := (hkept _ (hne _ htag')).trans htag
  have hsize'' := (Parameters.pageSize_of_find? (hkept _ (hne _ hpage'))).trans hsize
  rcases mem_reads.1 hname with h | h | h
  · rw [hfixed] at h
    rcases List.mem_cons.1 h with rfl | h
    · exact hne _ htag' rfl
    · exact hne _ hpage' (List.mem_singleton.1 h).symm
  · obtain ⟨key, hkey, hnil⟩ := hfound h
    rw [hrun, apply_sweep hw' htag'' hsize'', hnil] at heq
    have hcount : 0 = ((w.targets g).take 1).length := congrArg Prod.snd (Except.ok.inj heq)
    have hpos := List.length_pos_of_mem hkey
    rw [List.length_take] at hcount
    omega
  · rw [hwritten] at h
    cases h

theorem resolve_owner (st : Statement)
    (hlocated : ∀ e ∈ s.owner.matcher.mapping, e.2 ∈ st.located)
    (hvalid : ∀ e ∈ s.owner.matcher.mapping, NodePlan.IdentifiesOwner e.2) :
    ∀ e ∈ s.owner.matcher.mapping, e.2.resolve .empty st.sweepProbe = some (.int 1) :=
  fun e he => resolve_sweepProbe (List.mem_append_left _ (hlocated e he)) (hvalid e he).2.2

theorem needs_sweepNodes {scope : Option Scope} (hst : st = sweepNodes label scope)
    (hvalid : ∀ s ∈ scope, ∀ e ∈ s.owner.matcher.mapping, NodePlan.IdentifiesOwner e.2)
    (hcheck : BoundStatement.check ⟨st, st.sweepProbe⟩ = .ok ()) (hname : name ∈ st.reads) :
    st.Needs name := by
  subst hst
  refine needs_of_targets rfl rfl rfl rfl (fun h => ?_) hcheck hname
  cases scope with
  | none => cases h
  | some s =>
    rw [located, Option.toList_some, List.flatMap_singleton, Mapping.batchNames_eq] at h
    have hvalues := resolve_owner (sweepNodes label (some s))
      (fun e he => List.mem_append_left _ (List.mem_map_of_mem he)) (hvalid s rfl)
    refine ⟨owned s [label] s.edgeType, 2, ?_, ?_⟩
    · have hlabel : Node.hasLabel ⟨.ofKeys [label], .empty⟩ label = true :=
        Node.hasLabel_ofKeys.trans (decide_eq_true (List.mem_singleton_self label))
      exact mem_staleNodes.2 ⟨_, rfl, hlabel, rfl, isOwned_owned (hvalid s rfl) hvalues⟩
    · refine List.eq_nil_iff_forall_not_mem.2 fun key hkey => ?_
      obtain ⟨-, -, -, -, hscope⟩ := mem_staleNodes.1 hkey
      cases (isOwned_erase h).symm.trans hscope

theorem needs_sweepOwnership (hst : st = sweepOwnership label s)
    (hvalid : ∀ e ∈ s.owner.matcher.mapping, NodePlan.IdentifiesOwner e.2)
    (hcheck : BoundStatement.check ⟨st, st.sweepProbe⟩ = .ok ()) (hname : name ∈ st.reads) :
    st.Needs name := by
  subst hst
  refine needs_of_targets rfl rfl rfl rfl (fun h => ?_) hcheck hname
  rw [located, Mapping.batchNames_eq] at h
  have hvalues := resolve_owner (sweepOwnership label s)
    (fun e he => List.mem_map_of_mem he) hvalid
  refine ⟨owned s [label] s.edgeType, 3, ?_, ?_⟩
  · refine mem_staleEdges.2 ⟨_, rfl, rfl, ?_⟩
    have hlabel : (owned s [label] s.edgeType).hasLabel 2 label = true :=
      hasLabel_owned (List.mem_singleton_self label)
    have howner :
        (owned s [label] s.edgeType).isOwner (sweepOwnership label s).sweepProbe s 1 = true :=
      isOwner_owned hvalid hvalues
    simp only [isOwnership, hlabel, howner, Bool.and_true, beq_self_eq_true]
  · refine List.eq_nil_iff_forall_not_mem.2 fun key hkey => ?_
    obtain ⟨e, -, -, hedge⟩ := mem_staleEdges.1 hkey
    simp [isOwnership, isOwner_erase h] at hedge

theorem needs_sweepEdges {scope : Option Scope} {p : EdgePattern}
    (hst : st = sweepEdges label scope p)
    (hvalid : ∀ s ∈ scope, ∀ e ∈ s.owner.matcher.mapping, NodePlan.IdentifiesOwner e.2)
    (hcheck : BoundStatement.check ⟨st, st.sweepProbe⟩ = .ok ()) (hname : name ∈ st.reads) :
    st.Needs name := by
  subst hst
  refine needs_of_targets rfl rfl rfl rfl (fun h => ?_) hcheck hname
  cases scope with
  | none => cases h
  | some s =>
    rw [located, Option.toList_some, List.flatMap_singleton, Mapping.batchNames_eq] at h
    have hvalues := resolve_owner (sweepEdges label (some s) p)
      (fun e he => List.mem_append_left _ (List.mem_map_of_mem he)) (hvalid s rfl)
    let g := owned s [label, p.otherLabel] p.edgeType
    have hlabel : g.hasLabel 2 label = true := hasLabel_owned List.mem_cons_self
    have hother : g.hasLabel 2 p.otherLabel = true :=
      hasLabel_owned (List.mem_cons_of_mem _ (List.mem_singleton_self _))
    have hscope : g.inScope (sweepEdges label (some s) p).sweepProbe (some s) 2 = true :=
      isOwned_owned (hvalid s rfl) hvalues
    refine ⟨g, 4, mem_staleEdges.2 ⟨_, rfl, rfl, ?_⟩, ?_⟩
    · have hends : ∀ d : Direction, Edge.ends ⟨p.edgeType, 2, 2, .empty⟩ d = (2, 2) := by
        intro d
        cases d <;> rfl
      simp only [isScopedEdge, hasPattern, hends, hlabel, hother, hscope, Bool.and_true,
        beq_self_eq_true]
    · refine List.eq_nil_iff_forall_not_mem.2 fun key hkey => ?_
      obtain ⟨e, -, -, hedge⟩ := mem_staleEdges.1 hkey
      simp [isScopedEdge, inScope, isOwned_erase h] at hedge

theorem needs_sweepLinks {sweep : LinkSweep} (hst : st = sweepLinks sweep)
    (hlabel : sweep.ownerLabel.source = .batchParameter)
    (hid : sweep.ownerId.source = .batchParameter)
    (hcheck : BoundStatement.check ⟨st, st.sweepProbe⟩ = .ok ()) (hname : name ∈ st.reads) :
    st.Needs name := by
  subst hst
  refine needs_of_targets rfl rfl rfl rfl (fun h => ?_) hcheck hname
  rw [located, List.flatMap_cons, List.flatMap_singleton, List.mem_append] at h
  refine ⟨linked sweep, 2, mem_staleEdges.2 ⟨_, rfl, rfl, isAttributed_linked ?_ ?_⟩, ?_⟩
  · exact resolve_sweepProbe (List.mem_append_left _ List.mem_cons_self) hlabel
  · refine resolve_sweepProbe (List.mem_append_left _ ?_) hid
    exact List.mem_cons_of_mem _ (List.mem_singleton_self _)
  · refine List.eq_nil_iff_forall_not_mem.2 fun key hkey => ?_
    obtain ⟨e, -, -, hedge⟩ := mem_staleEdges.1 hkey
    rcases h with h | h
    · simp [isAttributed, PropertyRef.resolve_erase h, MatchMode.accepts] at hedge
    · simp [isAttributed, PropertyRef.resolve_erase h, MatchMode.accepts] at hedge

end Statement

end GraphSync
