import GraphSync.Proofs.Statement.References
import GraphSync.Statement.Compile

/-! The names that the text of a load or of a sweep refers to. -/
namespace GraphSync

open Placeholder

namespace PropertyRef

/-- The names that a reference puts into a text. -/
def batchNames (r : PropertyRef) : List String := if r.isBatch then [r.name] else []

theorem mem_batchNames {r : PropertyRef} {name : String} :
    name ∈ r.batchNames ↔ r.source = .batchParameter ∧ r.name = name := by
  simp only [batchNames, isBatch, beq_iff_eq]
  split
  · simp_all [eq_comm]
  · simp_all

theorem refers_text {r : PropertyRef} (hr : r.WellFormed) : Refers r.text r.batchNames := by
  obtain ⟨name, source, _, _, _⟩ := r
  cases source with
  | recordField =>
    have hitem : PlainText "item." := by decide
    exact (hitem.append (plainText_of_isIdentifier hr.1)).refers
  | batchParameter => exact refers_dollar hr.1

end PropertyRef

namespace Mapping

def batchNames (m : Mapping) : List String := m.flatMap (·.2.batchNames)

theorem mem_batchNames {m : Mapping} {name : String} :
    name ∈ m.batchNames ↔ ∃ e ∈ m, name ∈ e.2.batchNames := List.mem_flatMap

end Mapping

namespace Matcher

/-- The names that properties are compared with; one that is matched element by element is not
compared with its list. -/
def comparedNames (m : Matcher) : List String :=
  m.mapping.flatMap fun e => if e.2.isOneToMany then [] else e.2.batchNames

def unwoundNames (m : Matcher) : List String := m.oneToMany?.toList.flatMap (·.2.batchNames)

end Matcher

namespace Cypher

variable {a b c var label subject expected : String} {ns ms : List String} {m : Matcher}
  {p : Endpoint} {e : EdgeSchema}

theorem refers_predicate (hs : PlainText subject) (he : Refers expected ns) (mode : MatchMode) :
    Refers (predicate subject expected mode) ns := by
  have heq : PlainText " = " := by decide
  have hlower : PlainText "toLower(" := by decide
  have hequals : PlainText ") = toLower(" := by decide
  have hcontains : PlainText ") CONTAINS toLower(" := by decide
  have hclose : PlainText ")" := by decide
  have hends : Breaks ")" := by decide
  cases mode with
  | exact => exact (hs.append heq).append_refers he
  | caseInsensitive =>
    exact (((hlower.append hs).append hequals).append_refers he).append_plain hclose hends
  | fuzzyCaseInsensitive =>
    exact (((hlower.append hs).append hcontains).append_refers he).append_plain hclose hends

theorem plainText_candidate (hv : PlainText var) : PlainText (candidate var) :=
  hv.append (by decide)

theorem plainText_property (hv : PlainText var) {name : String} (hn : isIdentifier name = true) :
    PlainText (var ++ "." ++ name) :=
  (hv.append (by decide)).append (plainText_of_isIdentifier hn)

theorem referAll_matcherPredicates (hv : PlainText var) :
    ReferAll (matcherPredicates var m) m.comparedNames := by
  refine referAll_map fun e he => ?_
  obtain ⟨hname, href⟩ := m.wellFormed.refs e he
  refine refers_predicate (plainText_property hv hname) ?_ e.2.matchMode
  split
  · exact (plainText_candidate hv).refers
  · exact PropertyRef.refers_text href

theorem refers_conjunction {predicates : List String} (h : ReferAll predicates ns) :
    Refers (conjunction predicates) ns :=
  h.intercalate (by decide) (by decide)

theorem refers_lines {ls : List String} (h : ReferAll ls ns) : Refers (lines ls) ns :=
  h.intercalate (by decide) (by decide)

theorem refers_where {predicates : List String} (h : ReferAll predicates ns) :
    Refers ("WHERE " ++ conjunction predicates) ns := by
  have hwhere : PlainText "WHERE " := by decide
  exact hwhere.append_refers (refers_conjunction h)

theorem referAll_endpointLines (hv : PlainText var) (hp : isIdentifier p.label = true) :
    ReferAll (endpointLines var p) (p.matcher.unwoundNames ++ p.matcher.comparedNames) := by
  have hunwind : PlainText "UNWIND " := by decide
  have has : PlainText " AS " := by decide
  have hends : Breaks " AS " := by decide
  have hmatch : PlainText "MATCH (" := by decide
  have hcolon : PlainText ":" := by decide
  have hclose : PlainText ")" := by decide
  have hpattern : PlainText ("MATCH (" ++ var ++ ":" ++ p.label ++ ")") :=
    (((hmatch.append hv).append hcolon).append (plainText_of_isIdentifier hp)).append hclose
  have hlist : ReferAll (p.matcher.oneToMany?.toList.map fun e =>
      "UNWIND " ++ e.2.text ++ " AS " ++ candidate var) p.matcher.unwoundNames := by
    refine referAll_map fun e he => ?_
    have hmem : e ∈ p.matcher.mapping := List.mem_of_find?_eq_some (Option.mem_toList.1 he)
    have htext := PropertyRef.refers_text (p.matcher.wellFormed.refs e hmem).2
    rw [String.append_assoc]
    exact (hunwind.append_refers htext).append_plain (has.append (plainText_candidate hv))
      hends.append
  refine hlist.append (.cons hpattern.refers (.singleton ?_))
  exact refers_where (referAll_matcherPredicates hv)

theorem refers_unwindBatch : Refers unwindBatch [Names.batch] := by
  have hunwind : PlainText "UNWIND " := by decide
  have has : PlainText " AS item" := by decide
  have hname : isIdentifier Names.batch = true := by decide
  have hbatch := (hunwind.append_refers (refers_dollar hname)).append_plain has (by decide)
  exact (by decide : "UNWIND " ++ ("$" ++ Names.batch) ++ " AS item" = unwindBatch) ▸ hbatch

theorem refers_identified {id : PropertyRef} (hl : isIdentifier label = true)
    (hid : id.WellFormed) : Refers (identified label id) id.batchNames := by
  have hopen : PlainText "(i:" := by decide
  have hbrace : PlainText " \x7b" := by decide
  have hname : PlainText Names.id := by decide
  have hcolon : PlainText ": " := by decide
  have hclose : PlainText "\x7d)" := by decide
  have hbefore := (((hopen.append (plainText_of_isIdentifier hl)).append hbrace).append
    hname).append hcolon
  exact (hbefore.append_refers (PropertyRef.refers_text hid)).append_plain hclose (by decide)

theorem plainText_relate (ha : PlainText a) (hb : PlainText b) (hc : PlainText c)
    (d : Direction) : PlainText (relate a b c d) := by
  have hopen : PlainText "(" := by decide
  have hclose : PlainText ")" := by decide
  have hin : PlainText ")<-[" := by decide
  have hin' : PlainText "]-(" := by decide
  have hout : PlainText ")-[" := by decide
  have hout' : PlainText "]->(" := by decide
  cases d with
  | inward =>
    exact (((((hopen.append ha).append hin).append hb).append hin').append hc).append hclose
  | outward =>
    exact (((((hopen.append ha).append hout).append hb).append hout').append hc).append hclose

theorem plainText_onCreate (hv : PlainText var) : PlainText (onCreate var) := by
  have hset : PlainText "ON CREATE SET " := by decide
  have hdot : PlainText "." := by decide
  have hseen : PlainText Names.firstSeen := by decide
  exact (((hset.append hv).append hdot).append hseen).append (by decide)

theorem refers_assignments {items : List String} (h : ReferAll items ns) :
    Refers (assignments items) ns := by
  have hindent : PlainText "    " := by decide
  have hall : ∀ {items ns}, ReferAll items ns → ReferAll (items.map ("    " ++ ·)) ns := by
    intro items ns h
    induction h with
    | nil => exact .nil
    | cons hfirst _ ih => exact .cons (hindent.append_refers hfirst) ih
  exact (hall h).intercalate (by decide) (by decide)

theorem referAll_assignProperty {mapping : Mapping} (hv : PlainText var)
    (hm : ∀ e ∈ mapping, isIdentifier e.1 = true ∧ e.2.WellFormed) :
    ReferAll (mapping.map (assignProperty var)) mapping.batchNames := by
  refine referAll_map fun e he => ?_
  obtain ⟨hname, href⟩ := hm e he
  have heq : PlainText " = " := by decide
  exact ((plainText_property hv hname).append heq).append_refers (PropertyRef.refers_text href)

theorem plainText_returnAffected : PlainText returnAffected := by decide

theorem plainText_typed (hv : PlainText var) {name : String} (hn : isIdentifier name = true) :
    PlainText (var ++ name) := hv.append (plainText_of_isIdentifier hn)

theorem referAll_mergeEdgeLines (e : EdgeSchema) :
    ReferAll (mergeEdgeLines e) e.properties.mapping.batchNames := by
  have hmerge : PlainText "MERGE " := by decide
  have hset : PlainText "SET" := by decide
  have hr : PlainText "r" := by decide
  have hedge : PlainText ("r:" ++ e.edgeType) := plainText_typed (by decide) e.valid.edgeType
  have hrelate := plainText_relate (by decide : PlainText "i") hedge
    (by decide : PlainText "j") e.direction
  have hassign := refers_assignments
    (referAll_assignProperty hr fun entry he => e.properties.wellFormed.refs entry he)
  have hrest := ReferAll.cons hset.refers
    (.cons hassign (.singleton plainText_returnAffected.refers))
  rw [List.nil_append, List.append_nil] at hrest
  exact .cons (hmerge.append hrelate).refers (.cons (plainText_onCreate hr).refers hrest)

theorem referAll_extraLabels {labels : List String} (h : ∀ l ∈ labels, isIdentifier l = true) :
    ReferAll (labels.map ("i:" ++ ·)) [] := by
  have hi : PlainText "i:" := by decide
  have hall : ReferAll (labels.map ("i:" ++ ·)) (labels.flatMap fun _ => []) :=
    referAll_map fun l hl => (hi.append (plainText_of_isIdentifier (h l hl))).refers
  rwa [List.flatMap_eq_nil_iff.2 fun _ _ => rfl] at hall

theorem refers_nodeUpsertText {u : NodeUpsert} (hl : isIdentifier u.label = true)
    (hextra : ∀ l ∈ u.extraLabels, isIdentifier l = true) : Refers (nodeUpsertText u)
      (Names.batch :: (u.properties.id.batchNames ++ u.properties.assigned.batchNames)) := by
  have hmerge : PlainText "MERGE " := by decide
  have hset : PlainText "SET" := by decide
  have hi : PlainText "i" := by decide
  have hrefs := u.properties.wellFormed.refs
  have hid := refers_identified hl (hrefs _ u.properties.id_mem).2
  have hassigned : ReferAll (u.properties.assigned.map (assignProperty "i"))
      u.properties.assigned.batchNames :=
    referAll_assignProperty hi fun e he => hrefs e (List.mem_filter.1 he).1
  have hassign := refers_assignments (hassigned.append (referAll_extraLabels hextra))
  have hall := ReferAll.cons refers_unwindBatch (.cons (hmerge.append_refers hid)
    (.cons (plainText_onCreate hi).refers (.cons hset.refers
      (.cons hassign (.singleton plainText_returnAffected.refers)))))
  simp only [List.nil_append, List.append_nil, List.singleton_append] at hall
  exact refers_lines hall

theorem refers_edgeUpsertText {u : EdgeUpsert} (hl : isIdentifier u.nodeLabel = true)
    (hid : u.nodeId.WellFormed) : Refers (edgeUpsertText u)
      (Names.batch :: (u.nodeId.batchNames ++
        (u.edge.target.matcher.unwoundNames ++ u.edge.target.matcher.comparedNames) ++
        u.edge.properties.mapping.batchNames)) := by
  have hmatch : PlainText "MATCH " := by decide
  have hj : PlainText "j" := by decide
  have hnode := ReferAll.cons refers_unwindBatch
    (.singleton (hmatch.append_refers (refers_identified hl hid)))
  have hall := (hnode.append (referAll_endpointLines hj u.edge.valid.target)).append
    (referAll_mergeEdgeLines u.edge)
  simp only [List.append_assoc, List.cons_append] at hall ⊢
  exact refers_lines hall

theorem refers_linkUpsertText {u : LinkUpsert} (hs : isIdentifier u.source.label = true) :
    Refers (linkUpsertText u) (Names.batch ::
      ((u.source.matcher.unwoundNames ++ u.source.matcher.comparedNames) ++
        (u.edge.target.matcher.unwoundNames ++ u.edge.target.matcher.comparedNames) ++
        u.edge.properties.mapping.batchNames)) := by
  have hi : PlainText "i" := by decide
  have hj : PlainText "j" := by decide
  have hends := (ReferAll.singleton refers_unwindBatch).append (referAll_endpointLines hi hs)
  have hall := (hends.append (referAll_endpointLines hj u.edge.valid.target)).append
    (referAll_mergeEdgeLines u.edge)
  rw [linkUpsertText]
  simp only [List.append_assoc, List.cons_append, List.nil_append] at hall ⊢
  exact refers_lines hall

/-- A reference whose dollar sign ends a piece of text. -/
theorem refers_reference (ha : PlainText a) (hb : PlainText b) (hc : c = b ++ "$")
    (hname : isIdentifier label = true) : Refers (a ++ c ++ label) [label] := by
  rw [hc, ← String.append_assoc, String.append_assoc]
  exact (ha.append hb).append_refers (refers_dollar hname)

theorem refers_stale (hv : PlainText var) : Refers (stale var) [Names.sweepTag] := by
  have hopen : PlainText "(" := by decide
  have hdot : PlainText "." := by decide
  have hmark : PlainText Names.mark := by decide
  have hnull : PlainText " IS NULL OR " := by decide
  have hother : PlainText " <> " := by decide
  have hclose : PlainText ")" := by decide
  have hends : Breaks ")" := by decide
  have htag : isIdentifier Names.sweepTag = true := by decide
  have hbefore := ((((((hopen.append hv).append hdot).append hmark).append hnull).append
    hv).append hdot).append hmark
  exact (refers_reference hbefore hother (by decide) htag).append_plain hclose hends

theorem refers_limited (hv : PlainText var) : Refers (limited var) [Names.pageSize] := by
  have hwith : PlainText "WITH DISTINCT " := by decide
  have hlimit : PlainText " LIMIT " := by decide
  have hsize : isIdentifier Names.pageSize = true := by decide
  exact refers_reference (hwith.append hv) hlimit (by decide) hsize

theorem plainText_scopeMatch {s : Scope} {edge : String} (hl : isIdentifier label = true)
    (hedge : PlainText edge) (ht : isIdentifier s.edgeType = true)
    (ho : isIdentifier s.owner.label = true) : PlainText (scopeMatch label edge s) := by
  have hmatch : PlainText "MATCH " := by decide
  have hn : PlainText "n:" := by decide
  have hcolon : PlainText ":" := by decide
  have hs : PlainText "s:" := by decide
  have hnode := hn.append (plainText_of_isIdentifier hl)
  have hbetween := (hedge.append hcolon).append (plainText_of_isIdentifier ht)
  have howner := hs.append (plainText_of_isIdentifier ho)
  exact hmatch.append (plainText_relate hnode hbetween howner .inward)

theorem plainText_edgeMatch {e : EdgePattern} {left : String} (hleft : PlainText left)
    (ht : isIdentifier e.edgeType = true) (ho : isIdentifier e.otherLabel = true) :
    PlainText (edgeMatch left e) := by
  have hmatch : PlainText "MATCH " := by decide
  have hr : PlainText "r:" := by decide
  have hcolon : PlainText ":" := by decide
  have hbetween := hr.append (plainText_of_isIdentifier ht)
  have hother := hcolon.append (plainText_of_isIdentifier ho)
  exact hmatch.append (plainText_relate hleft hbetween hother e.direction)

/-- A removal adds the page size to what its pattern refers to. -/
theorem refers_removeEdges {body : List String} (h : ReferAll body ns) :
    Refers (removeEdges body) (ns ++ [Names.pageSize]) := by
  have hr : PlainText "r" := by decide
  have hdelete : PlainText "DELETE r" := by decide
  have hrest := ReferAll.cons (refers_limited hr)
    (.cons hdelete.refers (.singleton plainText_returnAffected.refers))
  exact refers_lines (h.append hrest)

end Cypher

namespace Scope

/-- Type and label are identifiers. -/
structure Named (s : Scope) : Prop where
  edgeType : isIdentifier s.edgeType = true
  owner : isIdentifier s.owner.label = true

/-- The names that a sweep refers to. -/
def sweepNames (scope : Option Scope) : List String :=
  scope.toList.flatMap (·.owner.matcher.comparedNames) ++ [Names.sweepTag, Names.pageSize]

theorem sweepNames_some (s : Scope) :
    sweepNames (some s) = s.owner.matcher.comparedNames ++ [Names.sweepTag, Names.pageSize] := by
  simp [sweepNames]

end Scope

namespace Cypher

variable {label : String} {scope : Option Scope} {s : Scope} {e : EdgePattern}

theorem referAll_ownerPredicates (s : Scope) :
    ReferAll (ownerPredicates s) s.owner.matcher.comparedNames :=
  referAll_matcherPredicates (by decide)

theorem refers_nodeSweepText (hl : isIdentifier label = true) (hs : ∀ s ∈ scope, s.Named) :
    Refers (nodeSweepText label scope) (Scope.sweepNames scope) := by
  have hn : PlainText "n" := by decide
  have hmatch : PlainText "MATCH (n:" := by decide
  have hclose : PlainText ")" := by decide
  have hdelete : PlainText "DETACH DELETE n" := by decide
  have hall : ∀ {pattern predicates ns}, PlainText pattern → ReferAll predicates ns →
      Refers (lines [pattern, "WHERE " ++ conjunction (predicates ++ [stale "n"]), limited "n",
        "DETACH DELETE n", returnAffected]) (ns ++ [Names.sweepTag, Names.pageSize]) := by
    intro pattern predicates ns hp hpred
    have hwhere := refers_where (hpred.append (.singleton (refers_stale hn)))
    have htexts := ReferAll.cons hp.refers (.cons hwhere (.cons (refers_limited hn)
      (.cons hdelete.refers (.singleton plainText_returnAffected.refers))))
    simp only [List.nil_append, List.append_nil, List.append_assoc] at htexts
    exact refers_lines htexts
  cases scope with
  | none => exact hall ((hmatch.append (plainText_of_isIdentifier hl)).append hclose) .nil
  | some s =>
    have hnamed := hs s rfl
    rw [Scope.sweepNames_some]
    exact hall (plainText_scopeMatch hl (by decide) hnamed.edgeType hnamed.owner)
      (referAll_ownerPredicates s)

theorem refers_ownershipSweepText (hl : isIdentifier label = true) (hs : s.Named) :
    Refers (ownershipSweepText label s) (Scope.sweepNames (some s)) := by
  have hr : PlainText "r" := by decide
  have hpattern := plainText_scopeMatch hl hr hs.edgeType hs.owner
  have hwhere := refers_where ((referAll_ownerPredicates s).append (.singleton (refers_stale hr)))
  have hall := refers_removeEdges (.cons hpattern.refers (.singleton hwhere))
  rw [List.nil_append, List.append_assoc] at hall
  rwa [Scope.sweepNames_some]

theorem refers_edgeSweepText (hl : isIdentifier label = true) (hs : ∀ s ∈ scope, s.Named)
    (ht : isIdentifier e.edgeType = true) (ho : isIdentifier e.otherLabel = true) :
    Refers (edgeSweepText label scope e) (Scope.sweepNames scope) := by
  have hr : PlainText "r" := by decide
  have hn : PlainText "n" := by decide
  have hlabel : PlainText "n:" := by decide
  have hwhere : PlainText "WHERE " := by decide
  have hstale := ReferAll.singleton (hwhere.append_refers (refers_stale hr))
  cases scope with
  | none =>
    have hpattern := plainText_edgeMatch (hlabel.append (plainText_of_isIdentifier hl)) ht ho
    exact refers_removeEdges (.cons hpattern.refers hstale)
  | some s =>
    have hnamed := hs s rfl
    have hscope := plainText_scopeMatch hl (by decide : PlainText "") hnamed.edgeType hnamed.owner
    have howner := refers_where (referAll_ownerPredicates s)
    have hpattern := plainText_edgeMatch hn ht ho
    have hall := refers_removeEdges
      (.cons hscope.refers (.cons howner (.cons hpattern.refers hstale)))
    simp only [List.nil_append, List.append_assoc] at hall
    rwa [Scope.sweepNames_some]

/-- A line that compares a property of an edge with a reference. -/
theorem refers_comparison {r : PropertyRef} {property : String}
    (hp : isIdentifier property = true) (hr : r.WellFormed) :
    Refers ("  AND r." ++ property ++ " = " ++ r.text) r.batchNames := by
  have hand : PlainText "  AND r." := by decide
  have heq : PlainText " = " := by decide
  have hbefore := (hand.append (plainText_of_isIdentifier hp)).append heq
  exact hbefore.append_refers (PropertyRef.refers_text hr)

theorem refers_linkSweepText {s : LinkSweep} (hl : isIdentifier s.sourceLabel = true)
    (ht : isIdentifier s.edge.edgeType = true) (ho : isIdentifier s.edge.otherLabel = true)
    (hlabel : s.ownerLabel.WellFormed) (hid : s.ownerId.WellFormed) :
    Refers (linkSweepText s) (Names.sweepTag :: (s.ownerLabel.batchNames ++
      (s.ownerId.batchNames ++ [Names.pageSize]))) := by
  have hr : PlainText "r" := by decide
  have hn : PlainText "n:" := by decide
  have hwhere : PlainText "WHERE " := by decide
  have hlimit : PlainText "WITH r LIMIT " := by decide
  have hdelete : PlainText "DELETE r" := by decide
  have hsize : isIdentifier Names.pageSize = true := by decide
  have hownerLabel : isIdentifier Names.ownerLabel = true := by decide
  have hownerId : isIdentifier Names.ownerId = true := by decide
  have hpattern := plainText_edgeMatch (hn.append (plainText_of_isIdentifier hl)) ht ho
  have hpage : Refers ("WITH r LIMIT $" ++ Names.pageSize) [Names.pageSize] :=
    (by decide : "WITH r LIMIT " ++ ("$" ++ Names.pageSize) =
      "WITH r LIMIT $" ++ Names.pageSize) ▸ hlimit.append_refers (refers_dollar hsize)
  have hrest := ReferAll.cons (refers_comparison hownerLabel hlabel)
    (.cons (refers_comparison hownerId hid)
      (.cons hpage (.cons hdelete.refers (.singleton plainText_returnAffected.refers))))
  have hall := ReferAll.cons hpattern.refers
    (.cons (hwhere.append_refers (refers_stale hr)) hrest)
  simp only [List.nil_append, List.append_nil, List.singleton_append] at hall
  exact refers_lines hall

end Cypher

end GraphSync
