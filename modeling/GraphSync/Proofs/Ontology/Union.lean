import GraphSync.Proofs.Ontology.Checks
import GraphSync.Proofs.Schema.Validation

/-! The schema of a concept as the union of what is registered for it. Which calls succeeded decides
what a registry holds, and what it holds for a concept decides the fields of the schema. -/
namespace GraphSync

/-- The ontology fields of a module, in the order in which they are mapped to. -/
def ModuleMapping.fieldNames (m : ModuleMapping) : List String :=
  m.nodes.flatMap fun n => n.fields.map (·.ontologyField)

/-- The fields that are not a concept's own, each of them once, in the order of their first
places. -/
structure FirstPlaces (own fields names : List String) : Prop where
  mem : ∀ f, f ∈ names ↔ f ∈ fields ∧ f ∉ own
  ordered : names.Pairwise fun a b => fields.idxOf a < fields.idxOf b

namespace FirstPlaces

variable {own fields names : List String} {f : String}

theorem nodup (h : FirstPlaces own fields names) : names.Nodup := by
  refine h.ordered.imp fun hlt he => ?_
  rw [he] at hlt
  exact Nat.lt_irrefl _ hlt

theorem ordered_concat (h : FirstPlaces own fields names) (f : String) :
    names.Pairwise fun a b => (fields ++ [f]).idxOf a < (fields ++ [f]).idxOf b := by
  refine h.ordered.imp_of_mem fun {a b} ha hb hlt => ?_
  rwa [List.idxOf_append_of_mem ((h.mem a).1 ha).1, List.idxOf_append_of_mem ((h.mem b).1 hb).1]

/-- One more field changes nothing if it is there already. -/
theorem concat_of_mem (h : FirstPlaces own fields names) (hf : f ∈ own ++ names) :
    FirstPlaces own (fields ++ [f]) names := by
  refine ⟨fun x => ?_, h.ordered_concat f⟩
  rw [h.mem x, List.mem_append, List.mem_singleton]
  refine and_congr_left fun hx => ⟨.inl, ?_⟩
  rintro (hmem | rfl)
  · exact hmem
  · exact ((h.mem x).1 ((List.mem_append.1 hf).resolve_left hx)).1

/-- A field that is new comes last. -/
theorem concat_of_not_mem (h : FirstPlaces own fields names) (hf : f ∉ own ++ names) :
    FirstPlaces own (fields ++ [f]) (names ++ [f]) := by
  obtain ⟨hown, hnew⟩ := not_or.1 fun hmem => hf (List.mem_append.2 hmem)
  have hfields : f ∉ fields := fun hmem => hnew ((h.mem f).2 ⟨hmem, hown⟩)
  refine ⟨fun x => ?_, List.pairwise_append.2 ⟨h.ordered_concat f, List.pairwise_singleton _ _, ?_⟩⟩
  · rw [List.mem_append, List.mem_append, h.mem x, List.mem_singleton, or_and_right]
    exact or_congr_right (iff_self_and.2 fun he => he ▸ hown)
  · intro a ha b hb
    obtain rfl := List.mem_singleton.1 hb
    have hplace := ((h.mem a).1 ha).1
    rw [List.idxOf_append_of_mem hplace, List.idxOf_append_of_notMem hfields]
    exact Nat.lt_add_right _ (List.idxOf_lt_length_iff.2 hplace)

end FirstPlaces

namespace ConceptTable

variable {t : ConceptTable} {s : NodeSchema} {names : List String}

/-- The entries of fields that are added to a mapping: first places, as references to themselves. -/
theorem exists_firstPlaces (fields : List String) (m : Mapping) :
    ∃ names, FirstPlaces m.names fields names ∧
      fields.foldl (fun (m : Mapping) f =>
        if f ∈ m.names then m else m ++ [(f, PropertyRef.field f)]) m =
      m ++ names.map fun f => (f, PropertyRef.field f) := by
  induction fields using List.reverseRecOn with
  | nil => exact ⟨[], ⟨by simp, .nil⟩, (List.append_nil m).symm⟩
  | append_singleton fields f ih =>
    obtain ⟨names, hnames, hfold⟩ := ih
    have hall : Mapping.names (m ++ names.map fun f => (f, PropertyRef.field f)) =
        m.names ++ names := by
      simp [Mapping.names, Function.comp_def]
    rw [List.foldl_append, hfold, List.foldl_cons, List.foldl_nil, hall]
    by_cases hf : f ∈ m.names ++ names
    · rw [if_pos hf]
      exact ⟨names, hnames.concat_of_mem hf, rfl⟩
    · rw [if_neg hf]
      refine ⟨names ++ [f], hnames.concat_of_not_mem hf, ?_⟩
      rw [List.map_append, List.append_assoc]
      rfl

theorem exists_entries (t : ConceptTable) : ∃ names,
    FirstPlaces [Names.id, Names.mark] t.fields names ∧
      t.entries = (Names.id, PropertyRef.field t.concept.idField) ::
        (Names.mark, PropertyRef.batch Names.loadTag) ::
          names.map fun f => (f, PropertyRef.field f) :=
  exists_firstPlaces t.fields
    [(Names.id, .field t.concept.idField), (Names.mark, .batch Names.loadTag)]

/-- The rules that entries of this form keep by themselves are those on modifiers. -/
theorem sound_entries (hid : IsName t.concept.idField)
    (hvalid : ∀ f ∈ names, IsName f) (hdistinct : (Names.id :: Names.mark :: names).Nodup)
    (hentries : t.entries = (Names.id, PropertyRef.field t.concept.idField) ::
      (Names.mark, PropertyRef.batch Names.loadTag) ::
        names.map fun f => (f, PropertyRef.field f)) : t.entries.Sound := by
  have hidName : IsName Names.id := isIdentifier_iff.1 (by decide)
  have hmarkName : IsName Names.mark := isIdentifier_iff.1 (by decide)
  rw [hentries]
  constructor
  case names =>
    simp only [List.forall_mem_cons, List.forall_mem_map]
    exact ⟨hidName, hmarkName, hvalid⟩
  case references =>
    simp only [List.forall_mem_cons, List.forall_mem_map]
    exact ⟨hid, hmarkName, hvalid⟩
  case modifiers => simp [PropertyRef.field, PropertyRef.batch]
  case distinct => simpa [Mapping.names, Function.comp_def] using hdistinct

/-- What the entries of a concept have to keep, beside the rules that they keep by themselves. -/
theorem forNodes_entries_iff : t.entries.ForNodes ↔
    IsName t.concept.idField ∧ ∀ f ∈ t.fields, f ≠ Names.id → f ≠ Names.mark →
      IsName f ∧ f ≠ Names.firstSeen := by
  obtain ⟨names, hnames, hentries⟩ := exists_entries t
  have hmem : ∀ f, f ∈ names ↔ f ∈ t.fields ∧ f ≠ Names.id ∧ f ≠ Names.mark := by
    intro f
    rw [hnames.mem, List.mem_cons, List.mem_singleton, not_or]
  have hall : t.entries.names = Names.id :: Names.mark :: names := by
    simp [hentries, Mapping.names, Function.comp_def]
  constructor
  · intro h
    have hentry : ∀ f ∈ names, (f, PropertyRef.field f) ∈ t.entries := fun f hf => by
      simp [hentries, hf]
    refine ⟨h.references (Names.id, .field t.concept.idField) (by simp [hentries]), ?_⟩
    intro f hf hid hmark
    have hname := (hmem f).2 ⟨hf, hid, hmark⟩
    refine ⟨h.names _ (hentry f hname), ?_⟩
    rintro rfl
    exact h.unreserved (by simp [hall, hname])
  · rintro ⟨hid, hfields⟩
    have hvalid : ∀ f ∈ names, IsName f ∧ f ≠ Names.firstSeen := fun f hf =>
      hfields f ((hmem f).1 hf).1 ((hmem f).1 hf).2.1 ((hmem f).1 hf).2.2
    have hidNew : Names.id ∉ names := fun h => ((hmem _).1 h).2.1 rfl
    have hmarkNew : Names.mark ∉ names := fun h => ((hmem _).1 h).2.2 rfl
    have hreserved : Names.firstSeen ∉ names := fun h => (hvalid _ h).2 rfl
    have hdistinct : (Names.id :: Names.mark :: names).Nodup := by
      refine List.nodup_cons.2 ⟨?_, List.nodup_cons.2 ⟨hmarkNew, hnames.nodup⟩⟩
      exact List.not_mem_cons_of_ne_of_not_mem (by decide) hidNew
    refine ⟨⟨sound_entries hid (fun f hf => (hvalid f hf).1) hdistinct hentries, ?_,
      by simp [hall]⟩, by simp [hall]⟩
    rw [hall]
    exact List.not_mem_cons_of_ne_of_not_mem (by decide)
      (List.not_mem_cons_of_ne_of_not_mem (by decide) hreserved)

theorem nodeSchema_eq_ok_iff : t.nodeSchema = .ok s ↔
    s.properties.mapping = t.entries ∧
      s.toNodePlan = ⟨t.concept.label, s.properties, [], none, [], false⟩ := by
  rw [nodeSchema, bind_eq_ok_iff]
  simp only [NodeProperties.ofMapping_eq_ok_iff, NodePlan.build_eq_ok_iff]
  constructor
  · rintro ⟨p, hp, hs⟩
    rw [hs]
    exact ⟨hp, rfl⟩
  · rintro ⟨hp, hs⟩
    exact ⟨s.properties, hp, hs⟩

theorem exists_nodeSchema_iff : (∃ s, t.nodeSchema = .ok s) ↔
    IsName t.concept.label ∧ t.entries.ForNodes := by
  simp only [nodeSchema_eq_ok_iff]
  constructor
  · rintro ⟨s, hp, hs⟩
    refine ⟨?_, Mapping.forNodes_iff.2 ⟨s.properties, hp⟩⟩
    have hlabel := isIdentifier_iff.1 s.valid.label
    rwa [hs] at hlabel
  · rintro ⟨hlabel, hentries⟩
    obtain ⟨p, hp⟩ := Mapping.forNodes_iff.1 hentries
    have hvalid : NodePlan.Valid ⟨t.concept.label, p, [], none, [], false⟩ :=
      ⟨isIdentifier_iff.2 hlabel, nofun, List.nodup_singleton _, nofun, nofun, nofun⟩
    exact ⟨⟨_, hvalid⟩, hp, rfl⟩

end ConceptTable

namespace Ontology

/-- What a registry is asked to do: to keep a concept, or what a module contributes to one. -/
inductive Call where
  | concept (c : Concept)
  | mapping (concept : String) (m : ModuleMapping)

/-- The registry with one more concept or mapping, if that succeeds. -/
def perform (o : Ontology) : Call → Except OntologyError Ontology
  | .concept c => o.addConcept c
  | .mapping concept m => o.addMapping concept m

/-- What a call leaves behind, whether it succeeds or not. -/
def call (o : Ontology) (c : Call) : Ontology :=
  match o.perform c with
  | .ok p => p
  | .error _ => o

/-- The registry after some calls, empty before them. -/
def afterCalls (calls : List Call) : Ontology := calls.foldl call .empty

/-- The call itself, if it succeeds. -/
def effective (o : Ontology) (c : Call) : List Call :=
  match o.perform c with
  | .ok _ => [c]
  | .error _ => []

/-- The calls that succeed, in order. -/
def accepted : Ontology → List Call → List Call
  | _, [] => []
  | o, c :: rest => o.effective c ++ accepted (o.call c) rest

/-- A registry in which some calls have succeeded, and no others. -/
structure Keeps (o : Ontology) (cs : List Call) : Prop where
  concepts : ∀ name c, (∃ t, o.tables.find? name = some t ∧ t.concept = c) ↔
    .concept c ∈ cs ∧ c.name = name
  mappings : ∀ name key m,
    (∃ t, o.tables.find? name = some t ∧ t.modules.find? key = some m) ↔
      .mapping name m ∈ cs ∧ m.name = key

variable {o other : Ontology} {cs ds : List Call} {c : Concept} {t : ConceptTable}
  {name key : String} {m : ModuleMapping}

theorem table_eq_ok_iff : o.table name = .ok t ↔ o.tables.find? name = some t := by
  rw [table]
  cases o.tables.find? name <;> simp

namespace Keeps

theorem empty : Keeps .empty [] := by
  constructor <;> simp [Ontology.empty]

theorem find?_modules_iff (h : o.Keeps cs) (ht : o.tables.find? name = some t) :
    t.modules.find? key = some m ↔ .mapping name m ∈ cs ∧ m.name = key := by
  rw [← h.mappings]
  constructor
  · exact fun hm => ⟨t, ht, hm⟩
  · rintro ⟨t', ht', hm⟩
    cases ht.symm.trans ht'
    exact hm

/-- Nothing has been registered for a concept that is not there. -/
theorem not_mem_of_find?_eq_none (h : o.Keeps cs) (hnone : o.tables.find? name = none) :
    (∀ c : Concept, c.name = name → .concept c ∉ cs) ∧ ∀ m, .mapping name m ∉ cs := by
  refine ⟨fun c hname hc => ?_, fun m hm => ?_⟩
  · obtain ⟨t, ht, -⟩ := (h.concepts name c).2 ⟨hc, hname⟩
    exact nomatch hnone.symm.trans ht
  · obtain ⟨t, ht, -⟩ := (h.mappings name m.name m).2 ⟨hm, rfl⟩
    exact nomatch hnone.symm.trans ht

/-- A concept is added where there is none of its name. -/
theorem addConcept (h : o.Keeps cs) (hadd : o.addConcept c = .ok other) :
    other.Keeps (cs ++ [.concept c]) := by
  rw [Ontology.addConcept] at hadd
  split at hadd
  · cases hadd
  · next hnew =>
    cases hadd
    have hnone : o.tables.find? c.name = none := by
      simpa [SortedMap.contains] using hnew
    obtain ⟨hconcept, hmapping⟩ := h.not_mem_of_find?_eq_none hnone
    constructor
    · intro name d
      rw [SortedMap.find?_insert]
      split
      · next hname =>
        subst hname
        constructor
        · rintro ⟨t, ht, rfl⟩
          cases ht
          simp
        · rintro ⟨hd, hname⟩
          simp only [List.mem_append, List.mem_singleton, Call.concept.injEq] at hd
          exact ⟨_, rfl, (hd.resolve_left (hconcept d hname)).symm⟩
      · next hname =>
        rw [h.concepts]
        simp only [List.mem_append, List.mem_singleton, Call.concept.injEq]
        refine and_congr_left fun hd => (or_iff_left ?_).symm
        rintro rfl
        exact hname hd.symm
    · intro name key m
      rw [SortedMap.find?_insert]
      simp only [List.mem_append, List.mem_singleton, reduceCtorEq, or_false]
      split
      · next hname =>
        subst hname
        refine iff_of_false ?_ fun hm => hmapping m hm.1
        rintro ⟨t, ht, hm⟩
        cases ht
        cases hm
      · exact h.mappings name key m

/-- A mapping is added to a concept that is there and has none of its module. -/
theorem addMapping (h : o.Keeps cs) (hadd : o.addMapping name m = .ok other) :
    other.Keeps (cs ++ [.mapping name m]) := by
  obtain ⟨t, ht, hnew, rfl⟩ := addMapping_eq_ok_iff.1 hadd
  rw [table_eq_ok_iff] at ht
  have hfree : ∀ m', m'.name = m.name → .mapping name m' ∉ cs := by
    intro m' hname hm'
    have hbound := (h.find?_modules_iff ht).2 ⟨hm', hname⟩
    rw [SortedMap.contains, hbound] at hnew
    cases hnew
  constructor
  · intro other d
    rw [SortedMap.find?_insert]
    simp only [List.mem_append, List.mem_singleton, reduceCtorEq, or_false]
    rw [← h.concepts]
    split
    · next hname =>
      subst hname
      simp [ht]
    · exact Iff.rfl
  · intro other key m'
    rw [SortedMap.find?_insert]
    simp only [List.mem_append, List.mem_singleton, Call.mapping.injEq]
    split
    · next hname =>
      subst hname
      simp only [Option.some.injEq, exists_eq_left', SortedMap.find?_insert, true_and]
      split
      · next hkey =>
        subst hkey
        constructor
        · rintro ⟨rfl⟩
          exact ⟨.inr rfl, rfl⟩
        · rintro ⟨hm', hname⟩
          rw [hm'.resolve_left (hfree m' hname)]
      · next hkey =>
        rw [h.find?_modules_iff ht]
        refine and_congr_left fun hm' => (or_iff_left ?_).symm
        rintro rfl
        exact hkey hm'.symm
    · next hname => simp [h.mappings, hname]

/-- A step: what a call leaves behind keeps the calls before, and this one if it succeeds. -/
theorem call (h : o.Keeps cs) (c : Call) : (o.call c).Keeps (cs ++ o.effective c) := by
  rw [Ontology.call, effective]
  cases hperform : o.perform c with
  | error e => exact (List.append_nil cs).symm ▸ h
  | ok other =>
    cases c with
    | concept c => exact h.addConcept hperform
    | mapping name m => exact h.addMapping hperform

/-- A run: of the calls, those are kept that succeeded. -/
theorem foldl_call (h : o.Keeps cs) (calls : List Call) :
    (calls.foldl Ontology.call o).Keeps (cs ++ accepted o calls) := by
  induction calls generalizing o cs with
  | nil => exact (List.append_nil cs).symm ▸ h
  | cons c rest ih =>
    rw [accepted, ← List.append_assoc]
    exact ih (h.call c)

/-- Where the same calls have succeeded, the same is registered for a concept. -/
theorem find?_of_mem_iff (h : o.Keeps cs) (hother : other.Keeps ds)
    (hsame : ∀ c, c ∈ ds ↔ c ∈ cs) (ht : o.tables.find? name = some t) :
    other.tables.find? name = some t := by
  have hconcept := (h.concepts name t.concept).1 ⟨t, ht, rfl⟩
  rw [← hsame, ← hother.concepts] at hconcept
  obtain ⟨t', ht', hconcept⟩ := hconcept
  have hmodules : t'.modules = t.modules := SortedMap.find?_ext fun key => Option.ext fun m => by
    rw [hother.find?_modules_iff ht', h.find?_modules_iff ht, hsame]
  rw [ht']
  cases t
  cases t'
  cases hconcept
  cases hmodules
  rfl

/-- Registries are equal if the same calls have succeeded, in whatever order. -/
theorem eq_of_mem_iff (h : o.Keeps cs) (hother : other.Keeps ds) (hsame : ∀ c, c ∈ ds ↔ c ∈ cs) :
    other = o := by
  have htables : other.tables = o.tables := SortedMap.find?_ext fun name => Option.ext fun t =>
    ⟨hother.find?_of_mem_iff h fun c => (hsame c).symm, h.find?_of_mem_iff hother hsame⟩
  cases o
  cases other
  cases htables
  rfl

end Keeps

theorem keeps_afterCalls (calls : List Call) :
    (afterCalls calls).Keeps (accepted .empty calls) := Keeps.empty.foldl_call calls

theorem nodeSchema_iff {s : NodeSchema} (ht : o.tables.find? name = some t) :
    o.nodeSchema name = .ok s ↔ t.nodeSchema = .ok s := by
  rw [nodeSchema, table_eq_ok_iff.2 ht]
  change t.nodeSchema.mapError OntologyError.schema = .ok s ↔ t.nodeSchema = .ok s
  cases t.nodeSchema <;> simp [Except.mapError]

/-- Modules come in name order. -/
theorem Keeps.pairwise_values (h : o.Keeps cs) (ht : o.tables.find? name = some t) :
    t.modules.values.Pairwise fun a b => a.name < b.name := by
  refine List.pairwise_map.2 (t.modules.ascending.imp_of_mem fun {a b} ha hb hlt => ?_)
  have hkey : ∀ x ∈ t.modules.entries, x.2.name = x.1 := fun x hx =>
    ((h.find?_modules_iff ht).1 (SortedMap.find?_eq_some_iff.2 hx)).2
  rwa [hkey a ha, hkey b hb]

/-- The schema of a concept after any calls. Of the modules registered for it, in name order, the
fields are taken in the order in which they first come, each once. There is a schema exactly if the
label, the field of the identity and every field but identity and mark are identifiers, and none of
these fields is the creation time. Its properties are identity and mark, then the other fields. It
is the same schema after other calls of which the same have succeeded, in whatever order. -/
theorem nodeSchema_union (calls : List Call) (c : Concept)
    (hc : .concept c ∈ accepted .empty calls) : ∃ modules : List ModuleMapping, ∃ names,
    (∀ m, m ∈ modules ↔ .mapping c.name m ∈ accepted .empty calls) ∧
    modules.Pairwise (fun a b => a.name < b.name) ∧
    FirstPlaces [Names.id, Names.mark] (modules.flatMap (·.fieldNames)) names ∧
    ((∃ s, (afterCalls calls).nodeSchema c.name = .ok s) ↔
      IsName c.label ∧ IsName c.idField ∧
        ∀ f ∈ modules.flatMap (·.fieldNames), f ≠ Names.id → f ≠ Names.mark →
          IsName f ∧ f ≠ Names.firstSeen) ∧
    (∀ s, (afterCalls calls).nodeSchema c.name = .ok s →
      s.toNodePlan = ⟨c.label, s.properties, [], none, [], false⟩ ∧
      s.properties.mapping =
        (Names.id, .field c.idField) :: (Names.mark, .batch Names.loadTag) ::
          names.map fun f => (f, .field f)) ∧
    ∀ others, (∀ x, x ∈ accepted .empty others ↔ x ∈ accepted .empty calls) → ∀ name,
      (afterCalls others).nodeSchema name = (afterCalls calls).nodeSchema name := by
  have hkeeps := keeps_afterCalls calls
  obtain ⟨t, ht, hconcept⟩ := (hkeeps.concepts c.name c).2 ⟨hc, rfl⟩
  obtain ⟨names, hnames, hentries⟩ := t.exists_entries
  have hfields : t.fields = t.modules.values.flatMap (·.fieldNames) := rfl
  rw [hfields] at hnames
  subst hconcept
  refine ⟨t.modules.values, names, fun m => ?_, hkeeps.pairwise_values ht, hnames, ?_,
    fun s hs => ?_, fun others hsame name => ?_⟩
  · rw [SortedMap.mem_values]
    simp only [hkeeps.find?_modules_iff ht, exists_and_left, exists_eq', and_true]
  · simp only [nodeSchema_iff ht]
    rw [ConceptTable.exists_nodeSchema_iff, ConceptTable.forNodes_entries_iff, hfields]
  · obtain ⟨hmapping, hplan⟩ := ConceptTable.nodeSchema_eq_ok_iff.1 ((nodeSchema_iff ht).1 hs)
    exact ⟨hplan, hmapping.trans hentries⟩
  · rw [hkeeps.eq_of_mem_iff (keeps_afterCalls others) hsame]

end Ontology

namespace Sample

/-- Users that are registered before their modules, whose names are not in order. -/
def userCalls : List Ontology.Call :=
  [.concept users.concept, .mapping "users" okta, .mapping "users" github]

end Sample

namespace Ontology

/-- Both modules name emails and full names, and one of them user names. The fields come in the
order in which the first module by name has them, whichever is registered first. -/
theorem nodeSchema_union_of_sample :
    .concept Sample.users.concept ∈ accepted .empty Sample.userCalls ∧
    (∃ s, (afterCalls Sample.userCalls).nodeSchema "users" = .ok s ∧
      s.properties.mapping.names = ["id", "lastupdated", "email", "fullname", "username"] ∧
      s.scopedCleanup = false) ∧
    (afterCalls [.mapping "users" Sample.okta, .concept Sample.users.concept,
      .mapping "users" Sample.github, .mapping "users" Sample.okta]).nodeSchema "users" =
        (afterCalls Sample.userCalls).nodeSchema "users" := by
  have haccepted : accepted .empty Sample.userCalls = Sample.userCalls := rfl
  have hconcept : .concept Sample.users.concept ∈ accepted .empty Sample.userCalls := by
    rw [haccepted]
    exact List.mem_cons_self
  obtain ⟨modules, names, -, -, -, -, hplan, hsame⟩ :=
    nodeSchema_union Sample.userCalls Sample.users.concept hconcept
  have hs : (afterCalls Sample.userCalls).nodeSchema "users" = .ok _ := rfl
  refine ⟨hconcept, ⟨_, hs, rfl, congrArg NodePlan.scopedCleanup (hplan _ hs).1⟩,
    hsame _ (fun x => ?_) _⟩
  exact ((List.Perm.swap _ _ []).cons _).mem_iff

end Ontology

end GraphSync
