import Mathlib.Data.List.Forall2
import GraphSync.Proofs.Graph.Write
import GraphSync.Proofs.Load.Ownership

/-! What a statement looks nodes up by. Labels, keys and edges apart, it tells two graphs apart only
by the properties that it looks up under a label. -/
namespace GraphSync

/-- A statement looks up nodes of a label by a property: by identity, by a key of a matcher, or by
the mark if it asks which of them are stale. -/
inductive Statement.LooksUp : Statement → String → String → Prop
  | identity (u : NodeUpsert) : LooksUp (.upsertNodes u) u.label Names.id
  | loaded (u : EdgeUpsert) : LooksUp (.upsertEdges u) u.nodeLabel Names.id
  | target (u : EdgeUpsert) {key : String} (hkey : key ∈ u.edge.target.matcher.keys) :
      LooksUp (.upsertEdges u) u.edge.target.label key
  | linkSource (u : LinkUpsert) {key : String} (hkey : key ∈ u.source.matcher.keys) :
      LooksUp (.upsertLinks u) u.source.label key
  | linkTarget (u : LinkUpsert) {key : String} (hkey : key ∈ u.edge.target.matcher.keys) :
      LooksUp (.upsertLinks u) u.edge.target.label key
  | mark (label : String) (scope : Option Scope) :
      LooksUp (.sweepNodes label scope) label Names.mark
  | owner {st : Statement} {scope : Scope} {key : String} (hscope : st.sweepScope? = some scope)
      (hkey : key ∈ scope.owner.matcher.keys) : LooksUp st scope.owner.label key
  | linkedFrom (l : PropertyLink) : LooksUp (.linkByProperty l) l.fromLabel l.fromProperty
  | linkedTo (l : PropertyLink) : LooksUp (.linkByProperty l) l.toLabel l.toProperty

/-- Nodes with the same labels, and the same values of what is looked up under one of these. -/
structure Node.AgreeOn (looks : String → String → Prop) (n m : Node) : Prop where
  labels : m.labels = n.labels
  values : ∀ {label property}, looks label property → n.hasLabel label = true →
    m.get? property = n.get? property

/-- Graphs that differ at most in properties of nodes that are not looked up. -/
structure Graph.AgreeOn (looks : String → String → Prop) (g h : Graph) : Prop where
  nodes : List.Forall₂ (fun a b => b.1 = a.1 ∧ a.2.AgreeOn looks b.2) g.nodes.entries
    h.nodes.entries
  edges : h.edges = g.edges
  indexes : h.indexes = g.indexes
  lastKey : h.lastKey = g.lastKey

/-- The same error, or results that are related. -/
inductive SameResult {ε α β : Type} (r : α → β → Prop) : Except ε α → Except ε β → Prop
  | ok {a : α} {b : β} (h : r a b) : SameResult r (.ok a) (.ok b)
  | error (e : ε) : SameResult r (.error e) (.error e)

/-- The same error, or as many rows and graphs that agree. -/
def Graph.SameOutcome (looks : String → String → Prop) :
    Except GraphError (Graph × Nat) → Except GraphError (Graph × Nat) → Prop :=
  SameResult fun a b => a.1.AgreeOn looks b.1 ∧ b.2 = a.2

namespace SameResult

variable {ε α β γ δ : Type} {r : α → β → Prop} {q : γ → δ → Prop}

theorem bind {x : Except ε α} {y : Except ε β} {f : α → Except ε γ} {f' : β → Except ε δ}
    (h : SameResult r x y) (hf : ∀ a b, r a b → SameResult q (f a) (f' b)) :
    SameResult q (x >>= f) (y >>= f') := by
  cases h with
  | ok h => exact hf _ _ h
  | error e => exact .error e

theorem of_eq {x : Except ε α} {f : α → Except ε γ} {f' : α → Except ε δ}
    (hf : ∀ a, SameResult q (f a) (f' a)) : SameResult q (x >>= f) (x >>= f') := by
  cases x with
  | ok a => exact hf a
  | error e => exact .error e

end SameResult

namespace SortedMap

variable {α β : Type} {r : α → β → Prop} {k : Nat} {v : α} {w : β} {xs : List (Nat × α)}
  {ys : List (Nat × β)}

theorem seek_of_forall₂ (h : List.Forall₂ (fun a b => b.1 = a.1 ∧ r a.2 b.2) xs ys) :
    Option.Rel r (seek k xs) (seek k ys) := by
  induction h with
  | nil => exact .none
  | @cons a b _ _ hab _ ih =>
    obtain ⟨hkey, hr⟩ := hab
    rw [seek, seek, hkey]
    split
    · exact .some hr
    · exact ih

theorem forall₂_place (h : List.Forall₂ (fun a b => b.1 = a.1 ∧ r a.2 b.2) xs ys) (hr : r v w) :
    List.Forall₂ (fun a b => b.1 = a.1 ∧ r a.2 b.2) (place k v xs) (place k w ys) := by
  induction h with
  | nil => exact .cons ⟨rfl, hr⟩ .nil
  | @cons a b _ _ hab hrest ih =>
    rw [place, place, hab.1]
    split
    · exact .cons ⟨rfl, hr⟩ (.cons ⟨rfl, hab.2⟩ hrest)
    · split
      · exact .cons ⟨rfl, hr⟩ hrest
      · exact .cons ⟨rfl, hab.2⟩ ih

end SortedMap

theorem Node.AgreeOn.hasLabel {looks : String → String → Prop} {n m : Node} {label : String}
    (h : n.AgreeOn looks m) : m.hasLabel label = n.hasLabel label := by
  rw [Node.hasLabel, h.labels, Node.hasLabel]

theorem Matcher.accepts_of_agreeOn {looks : String → String → Prop} {n m : Node} {p : Endpoint}
    {record : Record} {params : Parameters} {candidate : Option Json}
    (hkeys : ∀ key ∈ p.matcher.keys, looks p.label key) (h : n.AgreeOn looks m)
    (hlabel : n.hasLabel p.label = true) :
    p.matcher.accepts record params candidate m = p.matcher.accepts record params candidate n := by
  rw [Bool.eq_iff_iff, accepts, accepts, List.all_eq_true, List.all_eq_true]
  refine forall₂_congr fun entry hentry => ?_
  rw [h.values (hkeys entry.1 (List.mem_map_of_mem hentry)) hlabel]

namespace Graph

variable {looks : String → String → Prop} {g h : Graph} {label : String} {now : Int}
  {params : Parameters} {record : Record} {id : Json}

namespace AgreeOn

theorem find? (hgh : g.AgreeOn looks h) (key : Nat) :
    Option.Rel (Node.AgreeOn looks) (g.nodes.find? key) (h.nodes.find? key) :=
  SortedMap.seek_of_forall₂ hgh.nodes

/-- Graphs that agree have the same keys under a label. -/
theorem labelled (hgh : g.AgreeOn looks h) (label : String) :
    List.Forall₂ (fun a b => b.1 = a.1 ∧ a.2.AgreeOn looks b.2 ∧ a.2.hasLabel label = true)
      (g.labelled label) (h.labelled label) := by
  have hall := hgh.nodes
  rw [Graph.labelled, Graph.labelled]
  generalize g.nodes.entries = xs, h.nodes.entries = ys at hall ⊢
  induction hall with
  | nil => exact .nil
  | @cons a b _ _ hab _ ih =>
    rw [List.filter_cons, List.filter_cons, hab.2.hasLabel]
    split
    · exact .cons ⟨hab.1, hab.2, ‹_›⟩ ih
    · exact ih

theorem map_labelled {α : Type} {f f' : Nat × Node → α} (hgh : g.AgreeOn looks h) (label : String)
    (hf : ∀ key n m, n.AgreeOn looks m → n.hasLabel label = true → f' (key, m) = f (key, n)) :
    (h.labelled label).map f' = (g.labelled label).map f := by
  have hall := hgh.labelled label
  generalize g.labelled label = xs, h.labelled label = ys at hall ⊢
  induction hall with
  | nil => rfl
  | @cons a b _ _ hab _ ih =>
    obtain ⟨hkey, hagree, hlabel⟩ := hab
    obtain ⟨key, m⟩ := b
    obtain rfl : key = a.1 := hkey
    rw [List.map_cons, List.map_cons, ih, hf a.1 a.2 m hagree hlabel]

theorem flatMap_labelled {α : Type} {f f' : Nat × Node → List α} (hgh : g.AgreeOn looks h)
    (label : String) (hf : ∀ key n m, n.AgreeOn looks m → n.hasLabel label = true →
      f' (key, m) = f (key, n)) :
    (h.labelled label).flatMap f' = (g.labelled label).flatMap f := by
  rw [List.flatMap_def, List.flatMap_def, hgh.map_labelled label hf]

/-- A condition that agrees on nodes that agree selects the same keys. -/
theorem filter_labelled {p q : Nat × Node → Bool} (hgh : g.AgreeOn looks h) (label : String)
    (hp : ∀ key n m, n.AgreeOn looks m → n.hasLabel label = true → q (key, m) = p (key, n)) :
    ((h.labelled label).filter q).map (·.1) = ((g.labelled label).filter p).map (·.1) := by
  have hmarked : (h.labelled label).map (fun b => (q b, b.1)) =
      (g.labelled label).map fun b => (p b, b.1) :=
    hgh.map_labelled label fun key n m hagree hlabel => by rw [hp key n m hagree hlabel]
  have hselected := congrArg (fun bs => (bs.filter (·.1)).map (·.2)) hmarked
  simp only [List.filter_map, List.map_map] at hselected
  exact hselected

theorem findNode (hgh : g.AgreeOn looks h) (hid : looks label Names.id) :
    h.findNode label id = g.findNode label id := by
  have hhead : ∀ x : Graph, x.findNode label id =
      (((x.labelled label).filter fun b => b.2.identifiedBy id).map (·.1)).head? := by
    intro x
    rw [List.head?_map, List.head?_filter, Graph.findNode]
  rw [hhead, hhead, hgh.filter_labelled label]
  intro key n m hagree hlabel
  rw [Node.identifiedBy, Node.identifiedBy, hagree.values hid hlabel]

theorem matching {p : Endpoint} (hgh : g.AgreeOn looks h)
    (hkeys : ∀ key ∈ p.matcher.keys, looks p.label key) :
    h.matching record params p = g.matching record params p := by
  rw [Graph.matching, Graph.matching]
  congr 1
  funext candidate
  exact hgh.filter_labelled p.label fun key n m => Matcher.accepts_of_agreeOn hkeys

theorem edgeRows {u : EdgeUpsert} (hgh : g.AgreeOn (Statement.LooksUp (.upsertEdges u)) h) :
    h.edgeRows u params = g.edgeRows u params := by
  funext record
  have hfind : h.findNode u.nodeLabel = g.findNode u.nodeLabel := funext fun id =>
    hgh.findNode (.loaded u)
  rw [Graph.edgeRows, Graph.edgeRows, hfind, hgh.matching fun key => .target u]

theorem linkRows {u : LinkUpsert} (hgh : g.AgreeOn (Statement.LooksUp (.upsertLinks u)) h) :
    h.linkRows u params = g.linkRows u params := by
  funext record
  rw [Graph.linkRows, Graph.linkRows, hgh.matching fun key => .linkSource u,
    hgh.matching fun key => .linkTarget u]

/-- A condition that agrees on nodes that agree holds for the same keys. -/
theorem any_find? {p q : Node → Bool} (hgh : g.AgreeOn looks h) (key : Nat)
    (hp : ∀ n m, n.AgreeOn looks m → q m = p n) :
    (h.nodes.find? key).any q = (g.nodes.find? key).any p := by
  have hfind := hgh.find? key
  generalize g.nodes.find? key = x, h.nodes.find? key = y at hfind ⊢
  cases hfind with
  | none => rfl
  | some hagree => exact hp _ _ hagree

theorem hasLabel (hgh : g.AgreeOn looks h) (key : Nat) (label : String) :
    h.hasLabel key label = g.hasLabel key label :=
  hgh.any_find? key fun _ _ hagree => hagree.hasLabel

theorem isOwner {scope : Scope} (hgh : g.AgreeOn looks h)
    (hkeys : ∀ key ∈ scope.owner.matcher.keys, looks scope.owner.label key) :
    h.isOwner params scope = g.isOwner params scope := by
  funext key
  refine hgh.any_find? key fun n m hagree => ?_
  rw [hagree.hasLabel]
  cases hlabel : n.hasLabel scope.owner.label
  · rfl
  · exact congrArg _ (Matcher.accepts_of_agreeOn hkeys hagree hlabel)

theorem inScope {scope : Option Scope} (hgh : g.AgreeOn looks h)
    (hkeys : ∀ s, scope = some s → ∀ key ∈ s.owner.matcher.keys, looks s.owner.label key) :
    h.inScope params scope = g.inScope params scope := by
  funext key
  cases scope with
  | none => rfl
  | some s =>
    simp only [Graph.inScope, Option.all_some, isOwned, hgh.isOwner (hkeys s rfl), hgh.edges]

theorem hasPattern {p : EdgePattern} (hgh : g.AgreeOn looks h) :
    h.hasPattern label p = g.hasPattern label p := by
  funext e
  simp only [Graph.hasPattern, hgh.hasLabel]

theorem linkedPairs {l : PropertyLink}
    (hgh : g.AgreeOn (Statement.LooksUp (.linkByProperty l)) h) :
    h.linkedPairs l = g.linkedPairs l := by
  rw [Graph.linkedPairs, Graph.linkedPairs]
  refine hgh.flatMap_labelled l.fromLabel fun key n m hagree hlabel => ?_
  have hvalue : m.properties.present l.fromProperty = n.properties.present l.fromProperty :=
    congrArg Json.present (hagree.values (.linkedFrom l) hlabel)
  rw [hvalue]
  cases n.properties.present l.fromProperty with
  | none => rfl
  | some v =>
    have hkeys := hgh.filter_labelled
      (p := fun b => l.matchMode.accepts (b.2.get? l.toProperty) (some v))
      (q := fun b => l.matchMode.accepts (b.2.get? l.toProperty) (some v)) l.toLabel
      fun key n m hagree hlabel => by rw [hagree.values (.linkedTo l) hlabel]
    have hpairs := congrArg (List.map fun finish => (key, finish)) hkeys
    rwa [List.map_map, List.map_map] at hpairs

/-! What becomes of graphs that agree if the same is done to both. -/

variable {n m : Node} {edgeType : String} {start finish : Nat} {f : Record → Record}

theorem addNode (hgh : g.AgreeOn looks h) (hnm : n.AgreeOn looks m) :
    (g.addNode n).AgreeOn looks (h.addNode m) where
  nodes := by
    rw [Graph.addNode, Graph.addNode, hgh.lastKey]
    exact SortedMap.forall₂_place hgh.nodes hnm
  edges := hgh.edges
  indexes := hgh.indexes
  lastKey := congrArg (· + 1) hgh.lastKey

theorem setNode {key : Nat} (hgh : g.AgreeOn looks h) (hnm : n.AgreeOn looks m) :
    (g.setNode key n).AgreeOn looks (h.setNode key m) where
  nodes := SortedMap.forall₂_place hgh.nodes hnm
  edges := hgh.edges
  indexes := hgh.indexes
  lastKey := hgh.lastKey

theorem touchEdge (hgh : g.AgreeOn looks h) :
    (g.touchEdge now edgeType start finish f).AgreeOn looks
      (h.touchEdge now edgeType start finish f) := by
  have hfind : h.findEdge edgeType start finish = g.findEdge edgeType start finish := by
    rw [findEdge, findEdge, hgh.edges]
  cases hf : g.findEdge edgeType start finish with
  | none =>
    rw [touchEdge_of_absent hf, touchEdge_of_absent (hfind.trans hf)]
    refine ⟨hgh.nodes, ?_, hgh.indexes, congrArg (· + 1) hgh.lastKey⟩
    rw [addEdge, addEdge, hgh.edges, hgh.lastKey]
  | some key =>
    obtain ⟨e, he, -⟩ := findEdge_eq_some hf
    rw [touchEdge_of_found hf he, touchEdge_of_found (hfind.trans hf) (hgh.edges ▸ he)]
    refine ⟨hgh.nodes, ?_, hgh.indexes, hgh.lastKey⟩
    rw [setEdge, setEdge, hgh.edges]

theorem removeNodes (hgh : g.AgreeOn looks h) (keys : List Nat) :
    (g.removeNodes keys).AgreeOn looks (h.removeNodes keys) where
  nodes := by
    refine List.rel_filter (fun a b hab => ?_) hgh.nodes
    simp only [hab.1]
  edges := by rw [Graph.removeNodes, Graph.removeNodes, hgh.edges]
  indexes := hgh.indexes
  lastKey := hgh.lastKey

theorem removeEdges (hgh : g.AgreeOn looks h) (keys : List Nat) :
    (g.removeEdges keys).AgreeOn looks (h.removeEdges keys) where
  nodes := hgh.nodes
  edges := by rw [Graph.removeEdges, Graph.removeEdges, hgh.edges]
  indexes := hgh.indexes
  lastKey := hgh.lastKey

theorem foldl {α : Type} {step : Graph → α → Graph} (xs : List α) (hgh : g.AgreeOn looks h)
    (hstep : ∀ {g h : Graph} a, g.AgreeOn looks h → (step g a).AgreeOn looks (step h a)) :
    (xs.foldl step g).AgreeOn looks (xs.foldl step h) := by
  induction xs generalizing g h with
  | nil => exact hgh
  | cons a xs ih => exact ih (hstep a hgh)

theorem upsertRows {e : EdgeSchema} {rows : Record → List (Nat × Nat)}
    (hgh : g.AgreeOn looks h) :
    SameOutcome looks (g.upsertRows now e params rows) (h.upsertRows now e params rows) := by
  refine SameResult.of_eq fun records => .ok ⟨?_, rfl⟩
  exact hgh.foldl _ fun b hgh => hgh.foldl _ fun row hgh => hgh.touchEdge

theorem sweep {find find' : Json → List Nat} {remove : Graph → List Nat → Graph}
    (hfind : find' = find) (hremove : ∀ keys, (remove g keys).AgreeOn looks (remove h keys)) :
    SameOutcome looks (g.sweepPage params find remove) (h.sweepPage params find' remove) := by
  subst hfind
  exact SameResult.of_eq fun tag => SameResult.of_eq fun size => .ok ⟨hremove _, rfl⟩

theorem sweepEdgesWhere {p p' : Edge → Bool} (hgh : g.AgreeOn looks h) (hp : p' = p) :
    SameOutcome looks (g.sweepEdgesWhere params p) (h.sweepEdgesWhere params p') := by
  refine sweep (funext fun tag => ?_) hgh.removeEdges
  rw [staleEdges, staleEdges, hgh.edges, hp]

theorem update {u : NodeUpsert} (hnm : n.AgreeOn (Statement.LooksUp (.upsertNodes u)) m)
    (hlabel : n.hasLabel u.label = true) :
    (u.update params record n).AgreeOn (Statement.LooksUp (.upsertNodes u))
      (u.update params record m) := by
  refine ⟨by rw [NodeUpsert.update, NodeUpsert.update, hnm.labels], fun hlooks _ => ?_⟩
  cases hlooks with
  | identity =>
    rw [NodeUpsert.get?_id_update, NodeUpsert.get?_id_update, hnm.values (.identity u) hlabel]
  | owner hscope => cases hscope

theorem writeNode {u : NodeUpsert} (hgh : g.AgreeOn (Statement.LooksUp (.upsertNodes u)) h) :
    SameResult (AgreeOn (Statement.LooksUp (.upsertNodes u))) (writeNode now u params g record)
      (Graph.writeNode now u params h record) := by
  cases hid : u.properties.id.resolve record params with
  | none =>
    rw [Graph.writeNode, Graph.writeNode, hid]
    exact .error _
  | some id =>
    have hfind : h.findNode u.label id = g.findNode u.label id := hgh.findNode (.identity u)
    cases hf : g.findNode u.label id with
    | none =>
      rw [writeNode_of_absent hid hf, writeNode_of_absent hid (hfind.trans hf)]
      exact .ok (hgh.addNode ⟨rfl, fun _ _ => rfl⟩)
    | some key =>
      obtain ⟨n, hn, hlabel, -⟩ := findNode_eq_some_iff.1 hf
      obtain ⟨m, hm, -⟩ := findNode_eq_some_iff.1 (hfind.trans hf)
      have hnm := hgh.find? key
      rw [hn, hm] at hnm
      cases hnm with
      | some hnm =>
        rw [writeNode_of_found hid hf hn, writeNode_of_found hid (hfind.trans hf) hm]
        exact .ok (hgh.setNode (update hnm hlabel))

theorem upsertNodes {u : NodeUpsert} (hgh : g.AgreeOn (Statement.LooksUp (.upsertNodes u)) h) :
    SameOutcome (Statement.LooksUp (.upsertNodes u)) (g.upsertNodes now u params)
      (h.upsertNodes now u params) := by
  refine SameResult.of_eq fun records => ?_
  have hwritten : SameResult (AgreeOn (Statement.LooksUp (.upsertNodes u)))
      (records.foldlM (Graph.writeNode now u params) g)
      (records.foldlM (Graph.writeNode now u params) h) := by
    induction records generalizing g h with
    | nil => exact .ok hgh
    | cons r rest ih =>
      rw [List.foldlM_cons, List.foldlM_cons]
      exact hgh.writeNode.bind fun _ _ => ih
  exact hwritten.bind fun _ _ hgh => .ok ⟨hgh, rfl⟩

end AgreeOn

/-- What a statement does to two graphs is the same if they differ at most in properties that it
does not look up. -/
theorem sameOutcome_of_agreeOn (now : Int) (params : Parameters) {st : Statement}
    (hgh : g.AgreeOn st.LooksUp h) :
    SameOutcome st.LooksUp (g.apply now st params) (h.apply now st params) := by
  have howner : ∀ scope, st.sweepScope? = some scope → ∀ key ∈ scope.owner.matcher.keys,
      st.LooksUp scope.owner.label key := fun _ hscope _ hkey => .owner hscope hkey
  cases st with
  | createIndex target =>
    refine .ok ⟨⟨hgh.nodes, hgh.edges, ?_, hgh.lastKey⟩, rfl⟩
    rw [hgh.indexes]
  | upsertNodes u => exact hgh.upsertNodes
  | upsertEdges u =>
    rw [apply, apply, upsertEdges, upsertEdges, hgh.edgeRows]
    exact hgh.upsertRows
  | upsertLinks u =>
    rw [apply, apply, upsertLinks, upsertLinks, hgh.linkRows]
    exact hgh.upsertRows
  | sweepNodes label scope =>
    refine AgreeOn.sweep (funext fun tag => ?_) hgh.removeNodes
    refine hgh.filter_labelled label fun key n m hnm hlabel => ?_
    have hmark : m.properties.present Names.mark = n.properties.present Names.mark :=
      congrArg Json.present (hnm.values (.mark label scope) hlabel)
    have hscope : h.inScope params scope = g.inScope params scope := hgh.inScope howner
    rw [hscope, Record.isStale, Record.isStale, hmark]
  | sweepOwnership label scope =>
    refine hgh.sweepEdgesWhere (funext fun e => ?_)
    simp only [isOwnership, hgh.hasLabel, hgh.isOwner (howner scope rfl)]
  | sweepEdges label scope edge =>
    refine hgh.sweepEdgesWhere (funext fun e => ?_)
    have hscope : h.inScope params scope = g.inScope params scope := hgh.inScope howner
    rw [isScopedEdge, isScopedEdge, hgh.hasPattern, hscope]
  | sweepLinks sweep =>
    refine hgh.sweepEdgesWhere (funext fun e => ?_)
    rw [isAttributed, isAttributed, hgh.hasPattern]
  | linkByProperty l =>
    refine SameResult.of_eq fun tag => ?_
    rw [hgh.linkedPairs]
    exact .ok ⟨hgh.foldl _ fun pair hgh => hgh.touchEdge, rfl⟩
  | raw text => exact .error _

end Graph

end GraphSync
