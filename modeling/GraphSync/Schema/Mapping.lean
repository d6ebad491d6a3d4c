import GraphSync.Schema.Error

/-!
Property mappings of nodes, edges and matchers. Each kind of mapping carries the proof that it is
valid; a list of entries is refused with the first fault met in its order.
-/
namespace GraphSync

/-- Property names with the references they take their values from. -/
abbrev Mapping := List (String × PropertyRef)

namespace Mapping

def names (m : Mapping) : List String := m.map (·.1)

/-- The reference of a name. -/
def ref? (m : Mapping) (name : String) : Option PropertyRef :=
  (m.find? fun e => e.1 == name).map (·.2)

/-- Names and references are identifiers, names are distinct and modifiers can be combined. -/
structure WellFormed (m : Mapping) : Prop where
  refs : ∀ e ∈ m, isIdentifier e.1 = true ∧ e.2.WellFormed
  distinct : m.names.Nodup

/-- The fault of a reference by itself. -/
def refFault? (owner property : String) (r : PropertyRef) : Option SchemaError :=
  if !isIdentifier r.name then some (.invalidIdentifier owner r.name)
  else if r.isOneToMany && r.matchMode != .exact then
    some (.incompatibleModifiers owner property r.matchMode)
  else none

/-- The first fault of an entry, given the reserved names and the names before it. -/
def entryFault? (owner : String) (reserved seen : List String) (e : String × PropertyRef) :
    Option SchemaError :=
  if e.1 ∈ reserved then some (.reservedProperty owner e.1)
  else if !isIdentifier e.1 then some (.invalidIdentifier owner e.1)
  else (refFault? owner e.1 e.2).or
    (if e.1 ∈ seen then some (.duplicateProperty owner e.1) else none)

def fault? (owner : String) (reserved : List String) : List String → Mapping → Option SchemaError
  | _, [] => none
  | seen, e :: rest =>
    (entryFault? owner reserved seen e).or (fault? owner reserved (e.1 :: seen) rest)

/-- The fault of a mapping that lacks a mandatory name. -/
def lackFault? (owner property : String) (m : Mapping) : Option SchemaError :=
  if property ∈ m.names then none else some (.missingProperty owner property)

variable {owner property : String} {reserved seen : List String} {m : Mapping}

theorem refFault?_eq_none_iff {r : PropertyRef} :
    refFault? owner property r = none ↔ r.WellFormed := by
  by_cases hi : isIdentifier r.name = true
  · by_cases ho : r.cardinality = .oneToMany <;>
      simp [refFault?, PropertyRef.WellFormed, PropertyRef.isOneToMany, hi, ho]
  · simp [refFault?, PropertyRef.WellFormed, hi]

theorem entryFault?_eq_none_iff {e : String × PropertyRef} :
    entryFault? owner reserved seen e = none ↔
      e.1 ∉ reserved ∧ isIdentifier e.1 = true ∧ e.2.WellFormed ∧ e.1 ∉ seen := by
  simp only [entryFault?]
  split
  · simp_all
  · split
    · simp_all
    · simp_all [Option.or_eq_none_iff, refFault?_eq_none_iff]

theorem fault?_eq_none_iff_aux :
    fault? owner reserved seen m = none ↔
      (∀ e ∈ m, e.1 ∉ reserved ∧ isIdentifier e.1 = true ∧ e.2.WellFormed ∧ e.1 ∉ seen) ∧
        m.names.Nodup := by
  induction m generalizing seen with
  | nil => simp [fault?, names]
  | cons e rest ih =>
    rw [fault?, Option.or_eq_none_iff, entryFault?_eq_none_iff, ih, List.forall_mem_cons]
    simp only [names, List.map_cons, List.nodup_cons, List.mem_map, List.mem_cons, not_or]
    constructor
    · rintro ⟨h, hr, hn⟩
      refine ⟨⟨h, fun x hx => ?_⟩, ?_, hn⟩
      · obtain ⟨h1, h2, h3, -, h4⟩ := hr x hx
        exact ⟨h1, h2, h3, h4⟩
      · rintro ⟨x, hx, he⟩
        exact (hr x hx).2.2.2.1 he
    · rintro ⟨⟨h, hr⟩, he, hn⟩
      refine ⟨h, fun x hx => ?_, hn⟩
      obtain ⟨h1, h2, h3, h4⟩ := hr x hx
      exact ⟨h1, h2, h3, fun hxe => he ⟨x, hx, hxe⟩, h4⟩

/-- Nothing is found wrong exactly with well-formed mappings free of reserved names. -/
theorem fault?_eq_none_iff :
    fault? owner reserved [] m = none ↔ WellFormed m ∧ ∀ n ∈ reserved, n ∉ m.names := by
  rw [fault?_eq_none_iff_aux]
  constructor
  · rintro ⟨h, hn⟩
    refine ⟨⟨fun e he => ⟨(h e he).2.1, (h e he).2.2.1⟩, hn⟩, fun n hr hm => ?_⟩
    obtain ⟨e, he, rfl⟩ := List.mem_map.1 hm
    exact (h e he).1 hr
  · rintro ⟨h, hr⟩
    exact ⟨fun e he => ⟨fun hm => hr _ hm (List.mem_map_of_mem he), (h.refs e he).1,
      (h.refs e he).2, by simp⟩, h.distinct⟩

theorem lackFault?_eq_none_iff : lackFault? owner property m = none ↔ property ∈ m.names := by
  simp [lackFault?]

theorem ref?_isSome (h : property ∈ m.names) : (m.ref? property).isSome = true := by
  obtain ⟨e, he, rfl⟩ := List.mem_map.1 h
  simp only [ref?, Option.isSome_map, List.find?_isSome]
  exact ⟨e, he, by simp⟩

theorem ref?_eq_none_iff : m.ref? property = none ↔ property ∉ m.names := by
  simp only [ref?, Option.map_eq_none_iff, List.find?_eq_none, beq_iff_eq, names, List.mem_map,
    not_exists, not_and]

theorem ref?_cons (e : String × PropertyRef) (rest : Mapping) :
    ref? (e :: rest) property = if e.1 = property then some e.2 else ref? rest property := by
  by_cases h : e.1 = property <;> simp [ref?, h]

theorem ref?_append (m other : Mapping) (property : String) :
    ref? (m ++ other) property = (m.ref? property).or (other.ref? property) := by
  simp only [ref?, List.find?_append, Option.map_or]

theorem mem_of_ref? {r : PropertyRef} (h : m.ref? property = some r) : (property, r) ∈ m := by
  obtain ⟨e, he, rfl⟩ := Option.map_eq_some_iff.1 h
  have hname : e.1 = property := by simpa using List.find?_some he
  exact hname ▸ List.mem_of_find?_eq_some he

end Mapping

/-- The properties of a node: identity and mark are among them, the creation time is not. -/
structure NodeProperties where
  mapping : Mapping
  wellFormed : mapping.WellFormed
  unreserved : Names.firstSeen ∉ mapping.names
  marked : Names.mark ∈ mapping.names
  identified : Names.id ∈ mapping.names

namespace NodeProperties

def fault? (owner : String) (m : Mapping) : Option SchemaError :=
  (m.fault? owner [Names.firstSeen] []).or
    ((m.lackFault? owner Names.mark).or (m.lackFault? owner Names.id))

theorem fault?_eq_none_iff {owner : String} {m : Mapping} :
    fault? owner m = none ↔
      m.WellFormed ∧ Names.firstSeen ∉ m.names ∧ Names.mark ∈ m.names ∧ Names.id ∈ m.names := by
  simp [fault?, Option.or_eq_none_iff, Mapping.fault?_eq_none_iff,
    Mapping.lackFault?_eq_none_iff, and_assoc]

/-- Checks entries; errors name `owner`. -/
def ofMapping (owner : String) (m : Mapping) : Except SchemaError NodeProperties :=
  SchemaError.checked (fault? owner m) fun h =>
    have valid := fault?_eq_none_iff.1 h
    ⟨m, valid.1, valid.2.1, valid.2.2.1, valid.2.2.2⟩

theorem ofMapping_eq_ok_iff {owner : String} {m : Mapping} {p : NodeProperties} :
    ofMapping owner m = .ok p ↔ p.mapping = m := by
  refine SchemaError.checked_eq_ok_iff (fun _ => rfl) ?_
  rintro rfl
  exact ⟨fault?_eq_none_iff.2 ⟨p.wellFormed, p.unreserved, p.marked, p.identified⟩, rfl⟩

/-- The reference that identifies a node. -/
def id (p : NodeProperties) : PropertyRef :=
  (p.mapping.ref? Names.id).get (Mapping.ref?_isSome p.identified)

theorem id_mem (p : NodeProperties) : (Names.id, p.id) ∈ p.mapping :=
  Mapping.mem_of_ref? (by rw [id, Option.some_get])

/-- The entries other than the identity. -/
def assigned (p : NodeProperties) : Mapping := p.mapping.filter fun e => e.1 != Names.id

end NodeProperties

/-- The properties of an edge: the mark is among them, the creation time is not. -/
structure EdgeProperties where
  mapping : Mapping
  wellFormed : mapping.WellFormed
  unreserved : Names.firstSeen ∉ mapping.names
  marked : Names.mark ∈ mapping.names

namespace EdgeProperties

def fault? (owner : String) (m : Mapping) : Option SchemaError :=
  (m.fault? owner [Names.firstSeen] []).or (m.lackFault? owner Names.mark)

theorem fault?_eq_none_iff {owner : String} {m : Mapping} :
    fault? owner m = none ↔
      m.WellFormed ∧ Names.firstSeen ∉ m.names ∧ Names.mark ∈ m.names := by
  simp [fault?, Option.or_eq_none_iff, Mapping.fault?_eq_none_iff,
    Mapping.lackFault?_eq_none_iff, and_assoc]

def ofMapping (owner : String) (m : Mapping) : Except SchemaError EdgeProperties :=
  SchemaError.checked (fault? owner m) fun h =>
    have valid := fault?_eq_none_iff.1 h
    ⟨m, valid.1, valid.2.1, valid.2.2⟩

theorem ofMapping_eq_ok_iff {owner : String} {m : Mapping} {p : EdgeProperties} :
    ofMapping owner m = .ok p ↔ p.mapping = m := by
  refine SchemaError.checked_eq_ok_iff (fun _ => rfl) ?_
  rintro rfl
  exact ⟨fault?_eq_none_iff.2 ⟨p.wellFormed, p.unreserved, p.marked⟩, rfl⟩

/-- Whether a property is declared, with the same value for every record. -/
def DeclaresBatch (p : EdgeProperties) (name : String) : Prop :=
  ∃ r, p.mapping.ref? name = some r ∧ r.source = .batchParameter

end EdgeProperties

/-- Locates nodes by their properties; at most one of them may be matched element by element. -/
structure Matcher where
  mapping : Mapping
  wellFormed : mapping.WellFormed
  nonempty : mapping ≠ []
  single : mapping.countP (·.2.isOneToMany) ≤ 1

namespace Matcher

def fault? (owner : String) (m : Mapping) : Option SchemaError :=
  (m.fault? owner [] []).or
    (if m = [] then some (.missingProperty owner "<matcher key>")
    else if 1 < m.countP (·.2.isOneToMany) then some (.multipleOneToMany owner)
    else none)

theorem fault?_eq_none_iff {owner : String} {m : Mapping} :
    fault? owner m = none ↔ m.WellFormed ∧ m ≠ [] ∧ m.countP (·.2.isOneToMany) ≤ 1 := by
  simp only [fault?, Option.or_eq_none_iff, Mapping.fault?_eq_none_iff]
  split
  · simp_all
  · split <;> simp_all

def ofMapping (owner : String) (m : Mapping) : Except SchemaError Matcher :=
  SchemaError.checked (fault? owner m) fun h =>
    have valid := fault?_eq_none_iff.1 h
    ⟨m, valid.1, valid.2.1, valid.2.2⟩

theorem ofMapping_eq_ok_iff {owner : String} {m : Mapping} {x : Matcher} :
    ofMapping owner m = .ok x ↔ x.mapping = m := by
  refine SchemaError.checked_eq_ok_iff (fun _ => rfl) ?_
  rintro rfl
  exact ⟨fault?_eq_none_iff.2 ⟨x.wellFormed, x.nonempty, x.single⟩, rfl⟩

/-- The property that is matched element by element. -/
def oneToMany? (m : Matcher) : Option (String × PropertyRef) :=
  m.mapping.find? (·.2.isOneToMany)

def keys (m : Matcher) : List String := m.mapping.names

end Matcher

end GraphSync
