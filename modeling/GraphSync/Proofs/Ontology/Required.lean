import GraphSync.Ontology.Mapping

/-! Required fields of projected records. A node is dropped for a required field that is null, but
what was checked for one mapping is replaced by a later mapping to the same field. -/
namespace GraphSync.NodeMapping

/-- A mapping that has none to the same field after it. -/
inductive IsLast : List FieldMapping → FieldMapping → Prop
  | here {m : FieldMapping} {rest : List FieldMapping}
      (h : ∀ x ∈ rest, x.ontologyField ≠ m.ontologyField) : IsLast (m :: rest) m
  | there {m l : FieldMapping} {rest : List FieldMapping} (h : IsLast rest l) : IsLast (m :: rest) l

/-- The record has a value other than null for every required field. -/
def Complete (fields : List FieldMapping) (r : Record) : Prop :=
  ∀ f ∈ fields, f.required = true → ∃ v, r.find? f.ontologyField = some v ∧ v.isNull = false

variable {m l f : FieldMapping} {rest fields : List FieldMapping} {node projected r : Record}
  {name : String} {v : Json}

theorem IsLast.mem (h : IsLast fields l) : l ∈ fields := by
  induction h with
  | here _ => exact List.mem_cons_self
  | there _ ih => exact List.mem_cons_of_mem _ ih

/-- Every field that is mapped to has a last mapping. -/
theorem exists_isLast (hf : f ∈ fields) :
    ∃ l, IsLast fields l ∧ l.ontologyField = f.ontologyField := by
  induction fields generalizing f with
  | nil => cases hf
  | cons m rest ih =>
    by_cases hlater : ∃ x ∈ rest, x.ontologyField = f.ontologyField
    · obtain ⟨x, hx, hsame⟩ := hlater
      obtain ⟨l, hl, hfield⟩ := ih hx
      exact ⟨l, .there hl, hfield.trans hsame⟩
    · have hlast : ∀ x ∈ rest, x.ontologyField ≠ f.ontologyField := fun x hx he =>
        hlater ⟨x, hx, he⟩
      rcases List.mem_cons.1 hf with rfl | hf
      · exact ⟨f, .here hlast, rfl⟩
      · exact absurd rfl (hlast f hf)

/-- A node is dropped exactly for a required field that is null. -/
theorem projectFields_eq_none_iff : projectFields node fields projected = none ↔
    ∃ f ∈ fields, f.required = true ∧ (f.project node).isNull = true := by
  induction fields generalizing projected with
  | nil => simp [projectFields]
  | cons m rest ih =>
    rw [projectFields]
    split
    · next hnull => exact iff_of_true rfl ⟨m, List.mem_cons_self, Bool.and_eq_true_iff.1 hnull⟩
    · next hkept =>
      rw [ih]
      simp only [List.mem_cons, exists_eq_or_imp]
      rw [or_iff_right fun h => hkept (Bool.and_eq_true_iff.2 h)]

theorem projectFields_of_cons (h : projectFields node (m :: rest) projected = some r) :
    projectFields node rest (projected.insert m.ontologyField (m.project node)) = some r := by
  rw [projectFields] at h
  split at h
  · cases h
  · exact h

/-- A field that nothing is mapped to stays as it is. -/
theorem find?_projectFields_of_ne (h : projectFields node fields projected = some r)
    (hname : ∀ x ∈ fields, x.ontologyField ≠ name) : r.find? name = projected.find? name := by
  induction fields generalizing projected with
  | nil =>
    cases h
    rfl
  | cons m rest ih =>
    obtain ⟨hfirst, hrest⟩ := List.forall_mem_cons.1 hname
    rw [ih (projectFields_of_cons h) hrest, SortedMap.find?_insert, if_neg hfirst.symm]

/-- Of the mappings to one field the last one counts. -/
theorem find?_projectFields_of_isLast (h : projectFields node fields projected = some r)
    (hl : IsLast fields l) : r.find? l.ontologyField = some (l.project node) := by
  induction hl generalizing projected with
  | here hlast =>
    rw [find?_projectFields_of_ne (projectFields_of_cons h) hlast, SortedMap.find?_insert,
      if_pos rfl]
  | there _ ih => exact ih (projectFields_of_cons h)

/-- A projected record has the fields that are mapped to, with what their last mappings give. -/
theorem find?_project_eq_some_iff {m : NodeMapping} (h : m.project node = some r) :
    r.find? name = some v ↔
      ∃ l, IsLast m.fields l ∧ l.ontologyField = name ∧ l.project node = v := by
  constructor
  · intro hv
    by_cases hname : ∃ f ∈ m.fields, f.ontologyField = name
    · obtain ⟨f, hf, rfl⟩ := hname
      obtain ⟨l, hl, hfield⟩ := exists_isLast hf
      refine ⟨l, hl, hfield, ?_⟩
      rw [← hfield, find?_projectFields_of_isLast h hl] at hv
      exact Option.some.inj hv
    · have hnone : r.find? name = SortedMap.empty.find? name :=
        find?_projectFields_of_ne h fun x hx he => hname ⟨x, hx, he⟩
      rw [hnone, SortedMap.find?_empty] at hv
      cases hv
  · rintro ⟨l, hl, rfl, rfl⟩
    exact find?_projectFields_of_isLast h hl

/-- A required field is there if the last mapping to it gives a value. -/
theorem complete_iff {m : NodeMapping} (h : m.project node = some r) : Complete m.fields r ↔
    ∀ f ∈ m.fields, f.required = true → ∀ l, IsLast m.fields l →
      l.ontologyField = f.ontologyField → (l.project node).isNull = false := by
  refine forall₂_congr fun f hf => forall_congr' fun _ => ?_
  constructor
  · rintro ⟨v, hv, hnull⟩ l hl hfield
    rw [← hfield, find?_projectFields_of_isLast h hl] at hv
    cases hv
    exact hnull
  · intro hlast
    obtain ⟨l, hl, hfield⟩ := exists_isLast hf
    exact ⟨_, (find?_project_eq_some_iff h).2 ⟨l, hl, hfield, rfl⟩, hlast l hl hfield⟩

/-- A node is dropped if a required mapping gives null, and only then. The record of any other node
has, for each field that is mapped to, what the last mapping to it gives; so it has a value for
every required field exactly if the last mappings to required fields give one. They do where every
mapping to a required field is required itself. -/
theorem project_complete_iff (m : NodeMapping) (node : Record) :
    (m.project node = none ↔
      ∃ f ∈ m.fields, f.required = true ∧ (f.project node).isNull = true) ∧
    ∀ r, m.project node = some r →
      (∀ name v, r.find? name = some v ↔
        ∃ l, IsLast m.fields l ∧ l.ontologyField = name ∧ l.project node = v) ∧
      (Complete m.fields r ↔ ∀ f ∈ m.fields, f.required = true → ∀ l, IsLast m.fields l →
        l.ontologyField = f.ontologyField → (l.project node).isNull = false) ∧
      ((∀ f ∈ m.fields, f.required = true → ∀ l ∈ m.fields,
        l.ontologyField = f.ontologyField → l.required = true) → Complete m.fields r) := by
  refine ⟨projectFields_eq_none_iff, fun r hr => ⟨fun _ _ => find?_project_eq_some_iff hr,
    complete_iff hr, fun hrequired => (complete_iff hr).2 fun f hf hreq l hl hfield => ?_⟩⟩
  refine Bool.eq_false_iff.2 fun hnull => ?_
  have hdropped : m.project node = none :=
    projectFields_eq_none_iff.2 ⟨l, hl.mem, hrequired f hf hreq l hl.mem hfield, hnull⟩
  exact nomatch hr.symm.trans hdropped

end GraphSync.NodeMapping

namespace GraphSync.Sample

/-- Users with an email, and an alias that is mapped to the same field. -/
def aliased : NodeMapping where
  nodeLabel := "OktaUser"
  fields := [⟨"email", "email", true, none⟩, ⟨"email", "alias", false, none⟩]

end GraphSync.Sample

namespace GraphSync.NodeMapping

/-- A user without an alias is not dropped, and the email is null. A user without an email is
dropped though there is an alias. -/
theorem project_complete_iff_of_sample : ∃ r,
    Sample.aliased.project (.ofList [("email", .str "a")]) = some r ∧
    r.find? "email" = some .null ∧ ¬ Complete Sample.aliased.fields r ∧
    Sample.aliased.project (.ofList [("alias", .str "a")]) = none := by
  have hfirst : (⟨"email", "email", true, none⟩ : FieldMapping) ∈ Sample.aliased.fields :=
    List.mem_cons_self
  have hlast : IsLast Sample.aliased.fields ⟨"email", "alias", false, none⟩ :=
    .there (.here nofun)
  have hr : Sample.aliased.project (.ofList [("email", .str "a")]) = some _ := rfl
  obtain ⟨-, hkept⟩ := project_complete_iff Sample.aliased (.ofList [("email", .str "a")])
  obtain ⟨hfields, hcomplete, -⟩ := hkept _ hr
  refine ⟨_, hr, (hfields _ _).2 ⟨_, hlast, rfl, rfl⟩, fun h => ?_, ?_⟩
  · exact nomatch hcomplete.1 h _ hfirst rfl _ hlast rfl
  · exact (project_complete_iff Sample.aliased _).1.2 ⟨_, hfirst, rfl, rfl⟩

end GraphSync.NodeMapping
