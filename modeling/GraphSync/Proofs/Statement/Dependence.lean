import GraphSync.Proofs.Graph.Bindings
import GraphSync.Proofs.Statement.Reading

/-! What a statement does depends on the parameters that it reads and on no other. -/
namespace GraphSync

/-- Bindings with the same values for some names. -/
def Parameters.AgreeOn (names : List String) (params others : Parameters) : Prop :=
  ∀ name ∈ names, others.find? name = params.find? name

variable {st : Statement} {params others : Parameters} {g : Graph} {now : Int} {name : String}

theorem PropertyRef.resolve_of_agreeOn {r : PropertyRef}
    (h : Parameters.AgreeOn r.batchNames params others) (record : Record) :
    r.resolve record others = r.resolve record params :=
  resolve_congr record fun hsource => h r.name (mem_batchNames.2 ⟨hsource, rfl⟩)

namespace Parameters

theorem require_of_find? (h : others.find? name = params.find? name) :
    others.require name = params.require name := by
  simp only [require, h]

theorem records_of_find? (h : others.find? Names.batch = params.find? Names.batch) :
    others.records = params.records := by
  simp only [records, require_of_find? h]

theorem pageSize_of_find? (h : others.find? Names.pageSize = params.find? Names.pageSize) :
    others.pageSize = params.pageSize := by
  simp only [pageSize, require_of_find? h]

end Parameters

namespace Graph

theorem upsertRows_congr {e : EdgeSchema} {rows rows' : Record → List (Nat × Nat)}
    (hrecords : Parameters.records others = Parameters.records params) (hrows : rows' = rows)
    (hvalues : ∀ entry ∈ e.properties.mapping, ∀ record,
      entry.2.resolve record others = entry.2.resolve record params) :
    g.upsertRows now e others rows' = g.upsertRows now e params rows := by
  subst hrows
  have hwrite : ∀ batch, g.writeEdges now e others batch = g.writeEdges now e params batch :=
    fun _ => writeEdges_of_resolve fun b _ entry hentry => hvalues entry hentry b.1
  simp only [upsertRows, hrecords, hwrite]

theorem edgeRows_of_resolve {u : EdgeUpsert}
    (hid : ∀ record, u.nodeId.resolve record others = u.nodeId.resolve record params)
    (htarget : ∀ record, ∀ e ∈ u.edge.target.matcher.mapping,
      e.2.resolve record others = e.2.resolve record params) :
    g.edgeRows u others = g.edgeRows u params := by
  funext record
  simp only [edgeRows, hid record, matching_of_resolve (htarget record)]

theorem linkRows_of_resolve {u : LinkUpsert}
    (hsource : ∀ record, ∀ e ∈ u.source.matcher.mapping,
      e.2.resolve record others = e.2.resolve record params)
    (htarget : ∀ record, ∀ e ∈ u.edge.target.matcher.mapping,
      e.2.resolve record others = e.2.resolve record params) :
    g.linkRows u others = g.linkRows u params := by
  funext record
  simp only [linkRows, matching_of_resolve (hsource record), matching_of_resolve (htarget record)]

theorem inScope_of_references {scope : Option Scope}
    (h : ∀ r ∈ scope.toList.flatMap (·.owner.matcher.mapping.references), ∀ record,
      r.resolve record others = r.resolve record params) :
    g.inScope others scope = g.inScope params scope := by
  refine inScope_of_resolve fun s hs e he => h e.2 ?_ .empty
  exact List.mem_flatMap.2 ⟨s, Option.mem_toList.2 hs, List.mem_map_of_mem he⟩

theorem sweep_congr {find find' : Json → List Nat} {remove : Graph → List Nat → Graph}
    (hfixed : ∀ name ∈ [Names.sweepTag, Names.pageSize], others.find? name = params.find? name)
    (hfind : find' = find) : g.sweepPage others find' remove = g.sweepPage params find remove := by
  have htag := hfixed Names.sweepTag List.mem_cons_self
  have hsize := hfixed Names.pageSize (List.mem_cons_of_mem _ List.mem_cons_self)
  subst hfind
  simp only [sweepPage, Parameters.require_of_find? htag, Parameters.pageSize_of_find? hsize]

theorem apply_of_resolve (hfixed : ∀ name ∈ st.fixedNames, others.find? name = params.find? name)
    (hlocated : ∀ r ∈ st.located, ∀ record, r.resolve record others = r.resolve record params)
    (hwritten : ∀ r ∈ st.written, ∀ record, r.resolve record others = r.resolve record params) :
    g.apply now st others = g.apply now st params := by
  cases st with
  | createIndex target => rfl
  | upsertNodes u =>
    have hrecords := Parameters.records_of_find? (hfixed Names.batch List.mem_cons_self)
    have hid := hlocated u.properties.id List.mem_cons_self
    have hwrite : writeNode now u others = writeNode now u params := by
      funext g record
      exact writeNode_of_resolve (hid record)
        fun e he => hwritten e.2 (List.mem_map_of_mem he) record
    simp only [apply, upsertNodes, hrecords, hwrite]
  | upsertEdges u =>
    have hrecords := Parameters.records_of_find? (hfixed Names.batch List.mem_cons_self)
    have hrows := edgeRows_of_resolve (g := g) (hlocated u.nodeId List.mem_cons_self)
      fun record e he => hlocated e.2 (List.mem_cons_of_mem _ (List.mem_map_of_mem he)) record
    exact upsertRows_congr hrecords hrows fun e he => hwritten e.2 (List.mem_map_of_mem he)
  | upsertLinks u =>
    have hrecords := Parameters.records_of_find? (hfixed Names.batch List.mem_cons_self)
    have hrows := linkRows_of_resolve (g := g) (u := u)
      (fun record e he => hlocated e.2 (List.mem_append_left _ (List.mem_map_of_mem he)) record)
      fun record e he => hlocated e.2 (List.mem_append_right _ (List.mem_map_of_mem he)) record
    exact upsertRows_congr hrecords hrows fun e he => hwritten e.2 (List.mem_map_of_mem he)
  | sweepNodes label scope =>
    have hscope := inScope_of_references (g := g) hlocated
    exact sweep_congr hfixed (by simp only [staleNodes, hscope])
  | sweepOwnership label scope =>
    have howner : g.isOwner others scope = g.isOwner params scope :=
      isOwner_of_resolve fun e he => hlocated e.2 (List.mem_map_of_mem he) .empty
    have hedge : g.isOwnership others label scope = g.isOwnership params label scope := by
      funext e
      simp only [isOwnership, howner]
    exact sweep_congr hfixed (by rw [hedge])
  | sweepEdges label scope edge =>
    have hscope := inScope_of_references (g := g) hlocated
    have hedge : g.isScopedEdge others label scope edge =
        g.isScopedEdge params label scope edge := by
      funext e
      simp only [isScopedEdge, hscope]
    exact sweep_congr hfixed (by rw [hedge])
  | sweepLinks s =>
    have hlabel := hlocated s.ownerLabel List.mem_cons_self
    have hid := hlocated s.ownerId (List.mem_cons_of_mem _ List.mem_cons_self)
    have hedge : g.isAttributed others s = g.isAttributed params s := by
      funext e
      simp only [isAttributed, hlabel, hid]
    exact sweep_congr hfixed (by rw [hedge])
  | linkByProperty l =>
    have htag := Parameters.require_of_find? (hfixed Names.sweepTag List.mem_cons_self)
    simp only [apply, linkByProperty, htag]
  | raw text => rfl

/-- A statement does the same with bindings that agree on what it reads. -/
theorem apply_of_agreeOn (h : Parameters.AgreeOn st.reads params others) :
    g.apply now st others = g.apply now st params := by
  have hresolve : ∀ r ∈ st.references, ∀ record,
      r.resolve record others = r.resolve record params := by
    intro r hr record
    refine PropertyRef.resolve_of_agreeOn (fun name hname => h name ?_) record
    exact List.mem_append_right _ (List.mem_flatMap.2 ⟨r, hr, hname⟩)
  apply apply_of_resolve
  · exact fun name hname => h name (List.mem_append_left _ hname)
  · exact fun r hr => hresolve r (List.mem_append_left _ hr)
  · exact fun r hr => hresolve r (List.mem_append_right _ hr)

end Graph

variable {record : Record} {r : PropertyRef}

theorem PropertyRef.resolve_erase (h : name ∈ r.batchNames) :
    r.resolve record (SortedMap.erase params name) = none := by
  obtain ⟨hsource, rfl⟩ := mem_batchNames.1 h
  simp only [resolve, find?, hsource, SortedMap.find?_erase, if_true]
  rfl

theorem PropertyRef.resolve_erase_of_not_mem (h : name ∉ r.batchNames) :
    r.resolve record (SortedMap.erase params name) = r.resolve record params := by
  refine resolve_of_agreeOn (fun other hother => ?_) record
  rw [SortedMap.find?_erase, if_neg (ne_of_mem_of_not_mem hother h)]

/-- Without the parameter, some run whose parameters are all bound goes another way. -/
def Statement.Needs (st : Statement) (name : String) : Prop :=
  ∃ now g params, BoundStatement.check ⟨st, params⟩ = .ok () ∧
    Graph.apply now g st (SortedMap.erase params name) ≠ Graph.apply now g st params

end GraphSync
