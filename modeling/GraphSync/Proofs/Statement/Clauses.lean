import GraphSync.Proofs.Statement.Bare
import GraphSync.Proofs.Statement.Revealing
import GraphSync.Proofs.Statement.Texts

/-! What the clauses of a statement text give away of the schema they were written from. -/
namespace GraphSync

open Placeholder

theorem PropertyRef.reveals_text {r q : PropertyRef} (hr : r.WellFormed) (hq : q.WellFormed) :
    Reveals r.text q.text (r.bare = q.bare) := by
  obtain ⟨name, source, _, _, _⟩ := r
  obtain ⟨name', source', _, _, _⟩ := q
  have hname : Reveals name name' (name = name') :=
    .name (nameText_of_isIdentifier hr.1) (nameText_of_isIdentifier hq.1)
  have hkinds : Forks ("item." ++ name) ("$" ++ name') := Forks.append (by decide)
  have hkinds' : Forks ("$" ++ name) ("item." ++ name') := Forks.append (by decide)
  cases source <;> cases source'
  · exact (hname.prepend "item.").mono fun h => by rw [bare, bare, h]
  · exact .of_forks hkinds
  · exact .of_forks hkinds'
  · exact (hname.prepend "$").mono fun h => by rw [bare, bare, h]

namespace Cypher

variable {var subject subject' expected expected' label label' a a' b b' c c' : String}
  {p q r : Prop} {us vs : List String}

/-- The variables of nodes that are found by their properties. -/
def nodeVars : List String := ["i", "j", "s"]

theorem forks_var_lower : ∀ var ∈ nodeVars, Forks var "toLower(" := by decide

theorem forks_candidate (hv : var ∈ nodeVars) (r : PropertyRef) : Forks (candidate var) r.text := by
  have hkinds : ∀ var ∈ nodeVars, Forks (candidate var) "item." ∧ Forks (candidate var) "$" := by
    decide
  rw [PropertyRef.text]
  split
  · exact (hkinds var hv).1.append_right
  · exact (hkinds var hv).2.append_right

theorem reveals_name (h : isIdentifier a = true) (h' : isIdentifier b = true) :
    Reveals a b (a = b) :=
  .name (nameText_of_isIdentifier h) (nameText_of_isIdentifier h')

theorem reveals_predicate {mode mode' : MatchMode} (hs : Reveals subject subject' p)
    (hl : Forks subject "toLower(") (hl' : Forks subject' "toLower(")
    (he : Reveals expected expected' q) :
    Reveals (predicate subject expected mode) (predicate subject' expected' mode')
      (p ∧ mode = mode' ∧ q) := by
  have hops : Forks ") = toLower(" ") CONTAINS toLower(" := by decide
  have hops' : Forks ") CONTAINS toLower(" ") = toLower(" := by decide
  have hexact : ∀ {r x y}, Reveals (subject ++ x) ("toLower(" ++ y) r := .of_forks hl.append
  have hexact' : ∀ {r x y}, Reveals ("toLower(" ++ x) (subject' ++ y) r :=
    (Reveals.of_forks hl'.append).symm
  cases mode <;> cases mode' <;> simp only [predicate, String.append_assoc, true_and]
  case exact.exact => exact hs.between (by decide) fun _ => he
  case caseInsensitive.caseInsensitive | fuzzyCaseInsensitive.fuzzyCaseInsensitive =>
    exact (hs.between (by decide) fun _ => he.append_same (by decide)).prepend _
  case caseInsensitive.fuzzyCaseInsensitive =>
    exact (hs.then_forks hops (by decide) (by decide)).prepend _
  case fuzzyCaseInsensitive.caseInsensitive =>
    exact (hs.then_forks hops' (by decide) (by decide)).prepend _
  case exact.caseInsensitive | exact.fuzzyCaseInsensitive => exact hexact
  case caseInsensitive.exact | fuzzyCaseInsensitive.exact => exact hexact'

/-- One comparison of a matcher. -/
def comparisonText (var : String) (e : String × PropertyRef) : String :=
  predicate (var ++ "." ++ e.1) (if e.2.isOneToMany then candidate var else e.2.text)
    e.2.matchMode

theorem reveals_comparisonText {m m' : Matcher} {e f : String × PropertyRef} (hv : var ∈ nodeVars)
    (he : e ∈ m.mapping) (hf : f ∈ m'.mapping) :
    Reveals (comparisonText var e) (comparisonText var f)
      (Matcher.comparison e = Matcher.comparison f) := by
  obtain ⟨hname, href⟩ := m.wellFormed.refs e he
  obtain ⟨hname', href'⟩ := m'.wellFormed.refs f hf
  have hforks := forks_var_lower var hv
  have hsubject : Reveals (var ++ "." ++ e.1) (var ++ "." ++ f.1) (e.1 = f.1) :=
    (reveals_name hname hname').prepend _
  have hsubjects : ∀ name, Forks (var ++ "." ++ name) "toLower(" := fun name => by
    rw [String.append_assoc]
    exact hforks.append_left
  have hexpected : Reveals (if e.2.isOneToMany then candidate var else e.2.text)
      (if f.2.isOneToMany then candidate var else f.2.text)
      ((if e.2.isOneToMany then none else some e.2.bare) =
        if f.2.isOneToMany then none else some f.2.bare) := by
    split <;> split
    · exact (Reveals.refl _).mono fun _ => rfl
    · exact .of_forks (forks_candidate hv f.2)
    · exact (Reveals.of_forks (forks_candidate hv e.2)).symm
    · exact (PropertyRef.reveals_text href href').mono fun h => by rw [h]
  refine (reveals_predicate hsubject (hsubjects _) (hsubjects _) hexpected).mono ?_
  rintro ⟨hname, hmode, hwith⟩
  simp only [Matcher.comparison, hname, hmode, hwith]

section Items

variable {α β : Type} {write : α → String} {key : α → β} {es fs : List α}

/-- Items between separators that start no line, and the lines after them. -/
theorem reveals_items {sep : String} (hsep : Breaks sep) (hline : Forks sep "\n") (lead : String)
    (hes : es ≠ []) (hfs : fs ≠ []) (hus : us ≠ []) (hvs : vs ≠ [])
    (hitems : ∀ e ∈ es, ∀ f ∈ fs, Reveals (write e) (write f) (key e = key f))
    (hrest : es.map key = fs.map key → Reveals (separated "\n" us) (separated "\n" vs) q) :
    Reveals (separated "\n" ((lead ++ sep.intercalate (es.map write)) :: us))
      (separated "\n" ((lead ++ sep.intercalate (fs.map write)) :: vs))
      (es.map key = fs.map key ∧ q) := by
  have hcloses : ∀ ls, Closes (separated "\n" ls) := closes_separated (by decide)
  have hforks : ∀ {ls}, ls ≠ [] → Forks sep (separated "\n" ls) := fun h => by
    obtain ⟨l, ls, rfl⟩ := List.exists_cons_of_ne_nil h
    exact hline.append_right
  have hassoc : ∀ c ls, separated "\n" ((lead ++ c) :: ls) =
      "\n" ++ (lead ++ (c ++ separated "\n" ls)) := fun c ls => by
    rw [separated, String.append_assoc]
  have hall := Reveals.intercalate hsep (hcloses us) (hcloses vs) (hforks hus) (hforks hvs) hes hfs
    hitems hrest
  rw [hassoc, hassoc]
  exact (hall.prepend _).prepend _

theorem reveals_where (hes : es ≠ []) (hfs : fs ≠ []) (hus : us ≠ []) (hvs : vs ≠ [])
    (hitems : ∀ e ∈ es, ∀ f ∈ fs, Reveals (write e) (write f) (key e = key f))
    (hrest : es.map key = fs.map key → Reveals (separated "\n" us) (separated "\n" vs) q) :
    Reveals (separated "\n" (("WHERE " ++ conjunction (es.map write)) :: us))
      (separated "\n" (("WHERE " ++ conjunction (fs.map write)) :: vs))
      (es.map key = fs.map key ∧ q) :=
  reveals_items (by decide) (by decide) "WHERE " hes hfs hus hvs hitems hrest

theorem reveals_assignments (hes : es ≠ []) (hfs : fs ≠ [])
    (hitems : ∀ e ∈ es, ∀ f ∈ fs, Reveals (write e) (write f) (key e = key f)) :
    Reveals (separated "\n" [assignments (es.map write), returnAffected])
      (separated "\n" [assignments (fs.map write), returnAffected])
      (es.map key = fs.map key) := by
  have hsep : Breaks ",\n" := by decide
  have hall := reveals_items hsep (by decide) "" hes hfs (List.cons_ne_nil _ _)
    (List.cons_ne_nil _ _) (fun e he f hf => (hitems e he f hf).prepend "    ")
    fun _ => Reveals.refl (separated "\n" [returnAffected])
  have hassign : ∀ es : List α, "" ++ ",\n".intercalate (es.map fun e => "    " ++ write e) =
      assignments (es.map write) := fun es => by
    rw [String.empty_append, assignments, List.map_map]
    rfl
  rw [hassign, hassign] at hall
  exact hall.mono And.left

end Items

theorem reveals_comparisons {m m' : Matcher} (hv : var ∈ nodeVars) (hus : us ≠ []) (hvs : vs ≠ [])
    (hrest : m.comparisons = m'.comparisons →
      Reveals (separated "\n" us) (separated "\n" vs) q) :
    Reveals (separated "\n" (("WHERE " ++ conjunction (matcherPredicates var m)) :: us))
      (separated "\n" (("WHERE " ++ conjunction (matcherPredicates var m')) :: vs))
      (m.comparisons = m'.comparisons ∧ q) :=
  reveals_where m.nonempty m'.nonempty hus hvs
    (fun _ he _ hf => reveals_comparisonText hv he hf) hrest

/-- The line that unwinds a list, if there is one. -/
def unwindLines (var : String) (m : Matcher) : List String :=
  m.oneToMany?.toList.map fun e => "UNWIND " ++ e.2.text ++ " AS " ++ candidate var

theorem unwindLines_none {m : Matcher} (h : m.oneToMany? = none) : unwindLines var m = [] := by
  rw [unwindLines, h]
  rfl

theorem unwindLines_some {m : Matcher} {e : String × PropertyRef} (h : m.oneToMany? = some e) :
    unwindLines var m = ["UNWIND " ++ e.2.text ++ " AS " ++ candidate var] := by
  rw [unwindLines, h]
  rfl

theorem reveals_unwindLines {m m' : Matcher} (ha : Forks "UNWIND " a) (hb : Forks "UNWIND " b)
    (hrest : m.unwound = m'.unwound →
      Reveals (separated "\n" (a :: us)) (separated "\n" (b :: vs)) q) :
    Reveals (separated "\n" (unwindLines var m ++ a :: us))
      (separated "\n" (unwindLines var m' ++ b :: vs)) (m.unwound = m'.unwound ∧ q) := by
  have hforks : ∀ {a} (r : PropertyRef), Forks "UNWIND " a →
      Forks ("UNWIND " ++ r.text ++ " AS " ++ candidate var) a := fun r h => by
    simp only [String.append_assoc]
    exact h.append_left
  have hwf : ∀ {m : Matcher} {e}, m.oneToMany? = some e → e.2.WellFormed := fun {m} _ h =>
    (m.wellFormed.refs _ (List.mem_of_find?_eq_some h)).2
  cases hm : m.oneToMany? with
  | none =>
    rw [unwindLines_none hm, List.nil_append]
    cases hm' : m'.oneToMany? with
    | none =>
      have hsame : m.unwound = m'.unwound := by rw [Matcher.unwound, Matcher.unwound, hm, hm']
      rw [unwindLines_none hm', List.nil_append]
      exact (hrest hsame).mono fun hq => ⟨hsame, hq⟩
    | some f =>
      rw [unwindLines_some hm', List.singleton_append]
      exact (Reveals.of_forks_line (hforks f.2 ha)).symm
  | some e =>
    rw [unwindLines_some hm, List.singleton_append]
    cases hm' : m'.oneToMany? with
    | none =>
      rw [unwindLines_none hm', List.nil_append]
      exact .of_forks_line (hforks e.2 hb)
    | some f =>
      have htext := PropertyRef.reveals_text (hwf hm) (hwf hm')
      have hunwind : Reveals ("UNWIND " ++ e.2.text ++ " AS " ++ candidate var)
          ("UNWIND " ++ f.2.text ++ " AS " ++ candidate var) (m.unwound = m'.unwound) := by
        simp only [String.append_assoc]
        refine ((htext.append_same (Breaks.append (by decide)).closes).prepend _).mono fun h => ?_
        rw [Matcher.unwound, Matcher.unwound, hm, hm', Option.map_some, Option.map_some, h]
      rw [unwindLines_some hm', List.singleton_append]
      exact .line (by decide) hunwind hrest

theorem endpointLines_append (var : String) (p : Endpoint) (ls : List String) :
    endpointLines var p ++ ls = unwindLines var p.matcher ++ ("MATCH (" ++ var ++ ":" ++ p.label ++
      ")") :: ("WHERE " ++ conjunction (matcherPredicates var p.matcher)) :: ls := by
  rw [endpointLines, List.append_assoc]
  rfl

/-- The lines of an endpoint, and the lines after them. -/
theorem reveals_endpointLines {s t : Endpoint} (hv : var ∈ nodeVars)
    (hs : isIdentifier s.label = true) (ht : isIdentifier t.label = true) (hus : us ≠ [])
    (hvs : vs ≠ []) (hrest : s.Alike t → Reveals (separated "\n" us) (separated "\n" vs) q) :
    Reveals (separated "\n" (endpointLines var s ++ us))
      (separated "\n" (endpointLines var t ++ vs)) (s.Alike t ∧ q) := by
  have hpattern : Reveals ("MATCH (" ++ var ++ ":" ++ s.label ++ ")")
      ("MATCH (" ++ var ++ ":" ++ t.label ++ ")") (s.label = t.label) :=
    ((reveals_name hs ht).prepend _).append_same (by decide)
  have hforks : ∀ l, Forks "UNWIND " ("MATCH (" ++ var ++ ":" ++ l ++ ")") := fun l => by
    simp only [String.append_assoc]
    exact Forks.append_right (by decide)
  rw [endpointLines_append, endpointLines_append]
  refine (reveals_unwindLines (hforks _) (hforks _) fun hunwound => .line (by decide) hpattern
    fun hlabel => reveals_comparisons hv hus hvs fun hcompared =>
      hrest ⟨hlabel, hunwound, hcompared⟩).mono ?_
  rintro ⟨hunwound, hlabel, hcompared, hq⟩
  exact ⟨⟨hlabel, hunwound, hcompared⟩, hq⟩

variable {d d' : Direction}

/-- The direction of a pattern shows, and after that what it is made of. -/
theorem reveals_relate (ha : Reveals a a' p) (hb : p → Reveals b b' q) (hc : q → Reveals c c' r) :
    Reveals (relate a b c d) (relate a' b' c' d') (p ∧ d = d' ∧ q ∧ r) := by
  cases d <;> cases d' <;> simp only [relate, String.append_assoc, true_and]
  case inward.inward | outward.outward =>
    refine (ha.between (by decide) fun hp => (hb hp).between (by decide) fun hq => ?_).prepend _
    exact (hc hq).append_same (by decide)
  case inward.outward => exact (ha.then_forks (by decide) (by decide) (by decide)).prepend _
  case outward.inward => exact (ha.then_forks (by decide) (by decide) (by decide)).prepend _

theorem reveals_edgeMatch {e e' : EdgePattern} (ha : Reveals a a' p)
    (he : isIdentifier e.edgeType = true) (ho : isIdentifier e.otherLabel = true)
    (he' : isIdentifier e'.edgeType = true) (ho' : isIdentifier e'.otherLabel = true) :
    Reveals (edgeMatch a e) (edgeMatch a' e') (p ∧ e = e') := by
  obtain ⟨edgeType, d, other⟩ := e
  obtain ⟨edgeType', d', other'⟩ := e'
  have hedge : Reveals ("r:" ++ edgeType) ("r:" ++ edgeType') (edgeType = edgeType') :=
    (reveals_name he he').prepend "r:"
  have hother : Reveals (":" ++ other) (":" ++ other') (other = other') :=
    (reveals_name ho ho').prepend ":"
  refine ((reveals_relate ha (fun _ => hedge) fun _ => hother).prepend "MATCH ").mono ?_
  rintro ⟨hp, rfl, rfl, rfl⟩
  exact ⟨hp, rfl⟩

theorem reveals_identified {id id' : PropertyRef} (hl : isIdentifier label = true)
    (hl' : isIdentifier label' = true) (hid : id.WellFormed) (hid' : id'.WellFormed) :
    Reveals (identified label id) (identified label' id')
      (label = label' ∧ id.bare = id'.bare) := by
  have htext := PropertyRef.reveals_text hid hid'
  simp only [identified, String.append_assoc]
  refine ((reveals_name hl hl').between (by decide) fun _ => ?_).prepend _
  exact ((htext.append_same (by decide)).prepend _).prepend _

theorem reveals_assignProperty {m m' : Mapping} {e f : String × PropertyRef}
    (hm : ∀ e ∈ m, isIdentifier e.1 = true ∧ e.2.WellFormed)
    (hm' : ∀ e ∈ m', isIdentifier e.1 = true ∧ e.2.WellFormed) (he : e ∈ m) (hf : f ∈ m') :
    Reveals (assignProperty var e) (assignProperty var f) ((e.1, e.2.bare) = (f.1, f.2.bare)) := by
  obtain ⟨hname, href⟩ := hm e he
  obtain ⟨hname', href'⟩ := hm' f hf
  have htext := PropertyRef.reveals_text href href'
  simp only [assignProperty, String.append_assoc]
  have hall := (reveals_name hname hname').between (by decide : Breaks " = ") fun _ => htext
  refine ((hall.prepend _).prepend _).mono ?_
  rintro ⟨h, hbare⟩
  rw [h, hbare]

/-- The lines that write an edge. -/
theorem reveals_mergeEdgeLines {e f : EdgeSchema} :
    Reveals (separated "\n" (mergeEdgeLines e)) (separated "\n" (mergeEdgeLines f))
      (e.direction = f.direction ∧ e.edgeType = f.edgeType ∧
        e.properties.mapping.bare = f.properties.mapping.bare) := by
  have hmarked : ∀ p : EdgeProperties, p.mapping ≠ [] := fun p h => by
    simpa [Mapping.names, h] using p.marked
  have hedge : Reveals ("r:" ++ e.edgeType) ("r:" ++ f.edgeType) (e.edgeType = f.edgeType) :=
    (reveals_name e.valid.edgeType f.valid.edgeType).prepend _
  have hrelate : Reveals (relate "i" ("r:" ++ e.edgeType) "j" e.direction)
      (relate "i" ("r:" ++ f.edgeType) "j" f.direction)
      (True ∧ e.direction = f.direction ∧ e.edgeType = f.edgeType ∧ True) :=
    reveals_relate (.refl _) (fun _ => hedge) fun _ => .refl _
  have hset : ∀ x ∈ e.properties.mapping, ∀ y ∈ f.properties.mapping,
      Reveals (assignProperty "r" x) (assignProperty "r" y) ((x.1, x.2.bare) = (y.1, y.2.bare)) :=
    fun _ hx _ hy => reveals_assignProperty e.properties.wellFormed.refs
      f.properties.wellFormed.refs hx hy
  have hassign := reveals_assignments (hmarked e.properties) (hmarked f.properties) hset
  refine (Reveals.line (by decide) (hrelate.prepend "MERGE ") fun _ =>
    .same_line (.same_line hassign)).mono ?_
  rintro ⟨⟨-, hd, ht, -⟩, hbare⟩
  exact ⟨hd, ht, hbare⟩

/-- What a load of nodes sets: a property, or a label. -/
def assignmentText : (String × PropertyRef) ⊕ String → String
  | .inl e => assignProperty "i" e
  | .inr label => "i:" ++ label

def assignmentKey : (String × PropertyRef) ⊕ String → (String × PropertyRef) ⊕ String
  | .inl e => .inl (e.1, e.2.bare)
  | .inr label => .inr label

/-- What a load of nodes sets, the labels last. -/
def assigned (u : NodeUpsert) : List ((String × PropertyRef) ⊕ String) :=
  u.properties.assigned.map .inl ++ u.extraLabels.map .inr

theorem assigned_text (u : NodeUpsert) : u.properties.assigned.map (assignProperty "i") ++
    u.extraLabels.map ("i:" ++ ·) = (assigned u).map assignmentText := by
  rw [assigned, List.map_append, List.map_map, List.map_map]
  rfl

theorem assigned_ne_nil (u : NodeUpsert) : assigned u ≠ [] := by
  obtain ⟨e, he, hmark⟩ := List.mem_map.1 u.properties.marked
  have hmem : e ∈ u.properties.assigned :=
    List.mem_filter.2 ⟨he, by rw [hmark]; decide⟩
  exact List.ne_nil_of_mem (List.mem_append_left _ (List.mem_map_of_mem hmem))

theorem assigned_key {u v : NodeUpsert}
    (h : (assigned u).map assignmentKey = (assigned v).map assignmentKey) :
    u.properties.assigned.bare = v.properties.assigned.bare ∧ u.extraLabels = v.extraLabels := by
  have hleft : ∀ u : NodeUpsert, ((assigned u).map assignmentKey).filterMap Sum.getLeft? =
      u.properties.assigned.bare := fun u => by
    simp [assigned, assignmentKey, Function.comp_def, Mapping.bare]
  have hright : ∀ u : NodeUpsert, ((assigned u).map assignmentKey).filterMap Sum.getRight? =
      u.extraLabels := fun u => by
    simp [assigned, assignmentKey, Function.comp_def]
  exact ⟨by rw [← hleft, h, hleft], by rw [← hright, h, hright]⟩

theorem reveals_assignmentText {u v : NodeUpsert} {e f : (String × PropertyRef) ⊕ String}
    (hu : ∀ l ∈ u.extraLabels, isIdentifier l = true)
    (hv : ∀ l ∈ v.extraLabels, isIdentifier l = true) (he : e ∈ assigned u) (hf : f ∈ assigned v) :
    Reveals (assignmentText e) (assignmentText f) (assignmentKey e = assignmentKey f) := by
  have hkinds : ∀ {p} (e : String × PropertyRef) (label : String),
      Reveals (assignProperty "i" e) ("i:" ++ label) p := fun e label => by
    have hforks : Forks "i." "i:" := by decide
    exact .of_forks (((hforks.append_left.append_left).append_left).append_right)
  have hrefs : ∀ u : NodeUpsert, ∀ e ∈ u.properties.assigned,
      isIdentifier e.1 = true ∧ e.2.WellFormed := fun u e he =>
    u.properties.wellFormed.refs e (List.mem_filter.1 he).1
  cases e with
  | inl e =>
    cases f with
    | inl f =>
      have he : e ∈ u.properties.assigned := by simpa [assigned] using he
      have hf : f ∈ v.properties.assigned := by simpa [assigned] using hf
      exact (reveals_assignProperty (hrefs u) (hrefs v) he hf).mono (congrArg Sum.inl)
    | inr l => exact hkinds _ _
  | inr l =>
    cases f with
    | inl f => exact (hkinds _ _).symm
    | inr l' =>
      have hl := hu l (by simpa [assigned] using he)
      have hl' := hv l' (by simpa [assigned] using hf)
      exact ((reveals_name hl hl').prepend "i:").mono (congrArg Sum.inr)

/-- What a sweep asks: something of an owner, or that the entity is stale. -/
def conditionText (var : String) : Option (String × PropertyRef) → String
  | some e => comparisonText "s" e
  | none => stale var

def conditionKey : Option (String × PropertyRef) →
    Option (String × MatchMode × Option PropertyRef) := Option.map Matcher.comparison

def conditions (s : Scope) : List (Option (String × PropertyRef)) :=
  s.owner.matcher.mapping.map some

theorem ownerPredicates_eq (var : String) (s : Scope) :
    ownerPredicates s = (conditions s).map (conditionText var) := by
  rw [conditions, List.map_map]
  rfl

theorem ownerPredicates_append_stale (var : String) (s : Scope) :
    ownerPredicates s ++ [stale var] = (conditions s ++ [none]).map (conditionText var) := by
  rw [List.map_append, ← ownerPredicates_eq]
  rfl

theorem conditions_key (s : Scope) :
    (conditions s).map conditionKey = s.owner.matcher.comparisons.map some := by
  rw [conditions, Matcher.comparisons, List.map_map, List.map_map]
  rfl

theorem comparisons_of_key {s t : Scope}
    (h : (conditions s ++ [none]).map conditionKey = (conditions t ++ [none]).map conditionKey) :
    s.owner.matcher.comparisons = t.owner.matcher.comparisons := by
  rw [List.map_append, List.map_append, List.append_cancel_right_eq, conditions_key,
    conditions_key] at h
  exact (List.map_inj_right fun _ _ => Option.some.inj).1 h

theorem conditions_ne (s t : Scope) :
    (conditions s ++ [none]).map conditionKey ≠ (conditions t).map conditionKey := by
  intro h
  have hnone : none ∈ (conditions t).map conditionKey :=
    h ▸ List.mem_map_of_mem (List.mem_append_right _ List.mem_cons_self)
  rw [conditions_key] at hnone
  simp at hnone

theorem conditions_ne_nil (s : Scope) : conditions s ≠ [] := by
  rw [conditions, Ne, List.map_eq_nil_iff]
  exact s.owner.matcher.nonempty

theorem forks_stale (e : String × PropertyRef) : Forks (comparisonText "s" e) (stale var) := by
  simp only [comparisonText, predicate, stale, String.append_assoc]
  split
  all_goals exact Forks.append (by decide)

theorem reveals_conditionText {s t : Scope} {e f : Option (String × PropertyRef)}
    (he : e ∈ conditions s ++ [none]) (hf : f ∈ conditions t ++ [none]) :
    Reveals (conditionText var e) (conditionText var f) (conditionKey e = conditionKey f) := by
  have hs : "s" ∈ nodeVars := by decide
  cases e with
  | none =>
    cases f with
    | none => exact (Reveals.refl _).mono fun _ => rfl
    | some f => exact (Reveals.of_forks (forks_stale f)).symm
  | some e =>
    cases f with
    | none => exact .of_forks (forks_stale e)
    | some f =>
      have he : e ∈ s.owner.matcher.mapping := by simpa [conditions] using he
      have hf : f ∈ t.owner.matcher.mapping := by simpa [conditions] using hf
      exact (reveals_comparisonText hs he hf).mono (congrArg some)

end Cypher

end GraphSync
