import Mathlib.Data.List.Forall2
import GraphSync.Proofs.Sample
import GraphSync.Proofs.Statement.Names

/-! What is accepted as a schema. Mappings, edges and nodes are checked one after the other as they
are put together; all checks pass exactly for the descriptions that keep every rule. -/
namespace GraphSync

/-- Letters and the underscore, which an identifier may begin with. -/
def IsInitial (c : Char) : Prop := ('A' ≤ c ∧ c ≤ 'Z') ∨ ('a' ≤ c ∧ c ≤ 'z') ∨ c = '_'

/-- The identifiers of a graph: a letter or underscore, then letters, digits and underscores. -/
def IsName (s : String) : Prop :=
  ∃ c rest, s.toList = c :: rest ∧ IsInitial c ∧ ∀ d ∈ rest, IsInitial d ∨ ('0' ≤ d ∧ d ≤ '9')

/-! The rules of mappings. -/

namespace Mapping

/-- Names are identifiers and none is there twice, references are to identifiers, and what is taken
element by element is compared exactly. -/
structure Sound (m : Mapping) : Prop where
  names : ∀ e ∈ m, IsName e.1
  references : ∀ e ∈ m, IsName e.2.name
  modifiers : ∀ e ∈ m, ¬ (e.2.cardinality = .oneToMany ∧ e.2.matchMode ≠ .exact)
  distinct : m.names.Nodup

/-- The creation time is not for a mapping to set, and every edge has its mark. -/
structure ForEdges (m : Mapping) : Prop extends m.Sound where
  unreserved : Names.firstSeen ∉ m.names
  marked : Names.mark ∈ m.names

/-- A node has an identity besides. -/
structure ForNodes (m : Mapping) : Prop extends m.ForEdges where
  identified : Names.id ∈ m.names

/-- Something is compared, and one property at most with the elements of a list. -/
structure ForMatching (m : Mapping) : Prop extends m.Sound where
  nonempty : m ≠ []
  single : m.countP (·.2.cardinality = .oneToMany) ≤ 1

/-- The property is declared and has the same value for every record. -/
def Fixes (m : Mapping) (name : String) : Prop := ∃ r, (name, r) ∈ m ∧ r.source = .batchParameter

end Mapping

/-! Schemas as they are described, and the rules of these. -/

/-- The entries of a mapping, and the name that faults of them are reported under. -/
structure MappingDraft where
  owner : String
  entries : Mapping

/-- One end of an edge. -/
structure EndpointDraft where
  label : String
  matcher : MappingDraft

/-- An edge. With a source of its own it stands alone. -/
structure EdgeDraft where
  edgeType : String
  direction : Direction
  target : EndpointDraft
  properties : MappingDraft
  source : Option EndpointDraft

/-- A node type with its edges. -/
structure NodeDraft where
  label : String
  properties : MappingDraft
  extraLabels : List String
  owner : Option EdgeDraft
  edges : List EdgeDraft
  scopedCleanup : Bool

structure EndpointDraft.Valid (d : EndpointDraft) : Prop where
  label : IsName d.label
  matcher : d.matcher.entries.ForMatching

structure EdgeDraft.Valid (d : EdgeDraft) : Prop where
  edgeType : IsName d.edgeType
  target : d.target.Valid
  properties : d.properties.entries.ForEdges
  source : ∀ s, d.source = some s → s.Valid
  /-- A standalone edge says to whom it belongs. -/
  owned : d.source ≠ none → d.properties.entries.Fixes Names.ownerLabel ∧
    d.properties.entries.Fixes Names.ownerId

/-- The edge to an owner points at the node and identifies one owner for the whole batch. -/
structure EdgeDraft.ToOwner (d : EdgeDraft) : Prop where
  inward : d.direction = .inward
  exact : ∀ e ∈ d.target.matcher.entries,
    e.2.matchMode = .exact ∧ e.2.cardinality = .one ∧ e.2.source = .batchParameter

structure NodeDraft.Valid (d : NodeDraft) : Prop where
  label : IsName d.label
  properties : d.properties.entries.ForNodes
  extraLabels : ∀ l ∈ d.extraLabels, IsName l ∧ l ≠ d.label
  distinct : d.extraLabels.Nodup
  /-- No edge of a node type stands alone. -/
  owner : ∀ o, d.owner = some o → o.Valid ∧ o.source = none ∧ o.ToOwner
  edges : ∀ e ∈ d.edges, e.Valid ∧ e.source = none
  scope : d.scopedCleanup = true → d.owner ≠ none

/-! The checks, in their order. -/

def EndpointDraft.build (d : EndpointDraft) : Except SchemaError Endpoint := do
  return ⟨d.label, ← Matcher.ofMapping d.matcher.owner d.matcher.entries⟩

def EdgeDraft.build (d : EdgeDraft) : Except SchemaError EdgeSchema := do
  let source ← d.source.mapM EndpointDraft.build
  let target ← d.target.build
  let properties ← EdgeProperties.ofMapping d.properties.owner d.properties.entries
  EdgePlan.build ⟨d.edgeType, d.direction, target, properties, source⟩

def NodeDraft.build (d : NodeDraft) : Except SchemaError NodeSchema := do
  let properties ← NodeProperties.ofMapping d.properties.owner d.properties.entries
  let owner ← d.owner.mapM EdgeDraft.build
  let edges ← d.edges.mapM EdgeDraft.build
  NodePlan.build ⟨d.label, properties, d.extraLabels, owner, edges, d.scopedCleanup⟩

/-! Schemas that hold what is described. -/

structure EndpointDraft.Describes (d : EndpointDraft) (p : Endpoint) : Prop where
  label : p.label = d.label
  matcher : p.matcher.mapping = d.matcher.entries

structure EdgeDraft.Describes (d : EdgeDraft) (e : EdgeSchema) : Prop where
  edgeType : e.edgeType = d.edgeType
  direction : e.direction = d.direction
  target : d.target.Describes e.target
  properties : e.properties.mapping = d.properties.entries
  source : Option.Rel EndpointDraft.Describes d.source e.source

structure NodeDraft.Describes (d : NodeDraft) (s : NodeSchema) : Prop where
  label : s.label = d.label
  properties : s.properties.mapping = d.properties.entries
  extraLabels : s.extraLabels = d.extraLabels
  owner : Option.Rel EdgeDraft.Describes d.owner s.owner
  edges : List.Forall₂ EdgeDraft.Describes d.edges s.edges
  scopedCleanup : s.scopedCleanup = d.scopedCleanup

/-! Checks one after the other, each of which passes exactly if its result can be there. -/

section Chain

variable {ε α β : Type} {f : α → Except ε β}

theorem option_mapM_eq_ok_iff {o : Option α} {p : Option β} :
    o.mapM f = .ok p ↔ Option.Rel (fun a b => f a = .ok b) o p := by
  cases o with
  | none =>
    change Except.ok none = .ok p ↔ _
    cases p <;> simp
  | some a =>
    change (some <$> f a) = .ok p ↔ _
    cases p <;> cases hfa : f a <;> simp [Functor.map, Except.map, hfa]

/-- Every item passes by itself. -/
theorem list_mapM_eq_ok_iff {as : List α} {bs : List β} :
    as.mapM f = .ok bs ↔ List.Forall₂ (fun a b => f a = .ok b) as bs := by
  induction as generalizing bs with
  | nil =>
    rw [List.mapM_nil, List.forall₂_nil_left_iff]
    exact ⟨fun h => (Except.ok.inj h).symm, fun h => h ▸ rfl⟩
  | cons a as ih =>
    rw [List.mapM_cons, List.forall₂_cons_left_iff]
    simp only [bind_eq_ok_iff, ih]
    constructor
    · rintro ⟨b, hb, rest, hrest, hbs⟩
      exact ⟨b, rest, hb, hrest, (Except.ok.inj hbs).symm⟩
    · rintro ⟨b, rest, hb, hrest, rfl⟩
      exact ⟨b, hb, rest, hrest, rfl⟩

end Chain

theorem EndpointDraft.build_eq_ok_iff {d : EndpointDraft} {p : Endpoint} :
    d.build = .ok p ↔ d.Describes p := by
  simp only [build, bind_eq_ok_iff, Matcher.ofMapping_eq_ok_iff]
  constructor
  · rintro ⟨m, hm, hp⟩
    cases hp
    exact ⟨rfl, hm⟩
  · rintro h
    refine ⟨_, h.matcher, ?_⟩
    rw [← h.label]
    rfl

theorem EdgeDraft.build_eq_ok_iff {d : EdgeDraft} {e : EdgeSchema} :
    d.build = .ok e ↔ d.Describes e := by
  simp only [build, bind_eq_ok_iff, option_mapM_eq_ok_iff, EndpointDraft.build_eq_ok_iff,
    EdgeProperties.ofMapping_eq_ok_iff, EdgePlan.build_eq_ok_iff]
  constructor
  · rintro ⟨source, hsource, target, htarget, properties, hproperties, hplan⟩
    obtain ⟨plan, valid⟩ := e
    cases hplan
    exact ⟨rfl, rfl, htarget, hproperties, hsource⟩
  · rintro h
    refine ⟨_, h.source, _, h.target, _, h.properties, ?_⟩
    rw [← h.edgeType, ← h.direction]

theorem NodeDraft.build_eq_ok_iff {d : NodeDraft} {s : NodeSchema} :
    d.build = .ok s ↔ d.Describes s := by
  simp only [build, bind_eq_ok_iff, option_mapM_eq_ok_iff, list_mapM_eq_ok_iff,
    EdgeDraft.build_eq_ok_iff, NodeProperties.ofMapping_eq_ok_iff, NodePlan.build_eq_ok_iff]
  constructor
  · rintro ⟨properties, hproperties, owner, howner, edges, hedges, hplan⟩
    obtain ⟨plan, valid⟩ := s
    cases hplan
    exact ⟨rfl, hproperties, rfl, howner, hedges, rfl⟩
  · rintro h
    refine ⟨_, h.properties, _, h.owner, _, h.edges, ?_⟩
    rw [← h.label, ← h.extraLabels, ← h.scopedCleanup]

/-! What is described can be held by a schema exactly if it keeps the rules. -/

theorem isInitial_iff {c : Char} : (c.isAlpha || c == '_') = true ↔ IsInitial c := by
  have hupper : c.isUpper = true ↔ 'A' ≤ c ∧ c ≤ 'Z' := decide_eq_true_iff
  have hlower : c.isLower = true ↔ 'a' ≤ c ∧ c ≤ 'z' :=
    Bool.and_eq_true_iff.trans (and_congr decide_eq_true_iff decide_eq_true_iff)
  have halpha : c.isAlpha = (c.isUpper || c.isLower) := rfl
  rw [halpha, Bool.or_eq_true, Bool.or_eq_true, hupper, hlower, beq_iff_eq, or_assoc, IsInitial]

theorem isInitial_or_digit_iff {c : Char} :
    (c.isAlphanum || c == '_') = true ↔ IsInitial c ∨ ('0' ≤ c ∧ c ≤ '9') := by
  have hdigit : c.isDigit = true ↔ '0' ≤ c ∧ c ≤ '9' :=
    Bool.and_eq_true_iff.trans (and_congr decide_eq_true_iff decide_eq_true_iff)
  have halphanum : c.isAlphanum = (c.isAlpha || c.isDigit) := rfl
  rw [halphanum, Bool.or_right_comm, Bool.or_eq_true, isInitial_iff, hdigit]

theorem isIdentifier_iff {s : String} : isIdentifier s = true ↔ IsName s := by
  rw [isIdentifier, IsName]
  cases s.toList with
  | nil => simp
  | cons c rest =>
    simp only [Bool.and_eq_true, List.all_eq_true, isInitial_iff, isInitial_or_digit_iff,
      List.cons.injEq]
    constructor
    · exact fun h => ⟨c, rest, ⟨rfl, rfl⟩, h⟩
    · rintro ⟨_, _, ⟨rfl, rfl⟩, h⟩
      exact h

namespace Mapping

variable {m : Mapping} {name : String}

theorem wellFormed_iff : m.WellFormed ↔ m.Sound := by
  constructor
  · rintro ⟨hrefs, hdistinct⟩
    refine ⟨fun e he => isIdentifier_iff.1 (hrefs e he).1,
      fun e he => isIdentifier_iff.1 (hrefs e he).2.1, fun e he => ?_, hdistinct⟩
    rintro ⟨hmany, hinexact⟩
    exact hinexact ((hrefs e he).2.2 hmany)
  · rintro ⟨hnames, hreferences, hmodifiers, hdistinct⟩
    refine ⟨fun e he => ⟨isIdentifier_iff.2 (hnames e he),
      isIdentifier_iff.2 (hreferences e he), fun hmany => ?_⟩, hdistinct⟩
    by_contra hinexact
    exact hmodifiers e he ⟨hmany, hinexact⟩

theorem forEdges_iff : m.ForEdges ↔ ∃ p : EdgeProperties, p.mapping = m := by
  constructor
  · intro h
    exact ⟨⟨m, wellFormed_iff.2 h.toSound, h.unreserved, h.marked⟩, rfl⟩
  · rintro ⟨p, rfl⟩
    exact ⟨wellFormed_iff.1 p.wellFormed, p.unreserved, p.marked⟩

theorem forNodes_iff : m.ForNodes ↔ ∃ p : NodeProperties, p.mapping = m := by
  constructor
  · intro h
    exact ⟨⟨m, wellFormed_iff.2 h.toSound, h.unreserved, h.marked, h.identified⟩, rfl⟩
  · rintro ⟨p, rfl⟩
    exact ⟨⟨wellFormed_iff.1 p.wellFormed, p.unreserved, p.marked⟩, p.identified⟩

theorem forMatching_iff : m.ForMatching ↔ ∃ x : Matcher, x.mapping = m := by
  constructor
  · intro h
    exact ⟨⟨m, wellFormed_iff.2 h.toSound, h.nonempty, h.single⟩, rfl⟩
  · rintro ⟨x, rfl⟩
    exact ⟨wellFormed_iff.1 x.wellFormed, x.nonempty, x.single⟩

theorem declaresBatch_iff {p : EdgeProperties} :
    p.DeclaresBatch name ↔ p.mapping.Fixes name :=
  exists_congr fun _ => and_congr_left fun _ => ref?_eq_some_iff p.wellFormed.distinct

end Mapping

theorem exists_forall₂_iff {α β : Type} {R : α → β → Prop} {Q : β → Prop} {as : List α} :
    (∃ bs, List.Forall₂ R as bs ∧ ∀ b ∈ bs, Q b) ↔ ∀ a ∈ as, ∃ b, R a b ∧ Q b := by
  induction as with
  | nil => simp
  | cons a as ih =>
    rw [List.forall_mem_cons, ← ih]
    constructor
    · rintro ⟨bs, hbs, hall⟩
      obtain ⟨b, rest, hb, hrest, rfl⟩ := List.forall₂_cons_left_iff.1 hbs
      obtain ⟨hq, hall⟩ := List.forall_mem_cons.1 hall
      exact ⟨⟨b, hb, hq⟩, rest, hrest, hall⟩
    · rintro ⟨⟨b, hb, hq⟩, rest, hrest, hall⟩
      exact ⟨b :: rest, .cons hb hrest, List.forall_mem_cons.2 ⟨hq, hall⟩⟩

theorem exists_optionRel_iff {α β : Type} {R : α → β → Prop} {Q : β → Prop} {o : Option α} :
    (∃ p, Option.Rel R o p ∧ ∀ b, p = some b → Q b) ↔ ∀ a, o = some a → ∃ b, R a b ∧ Q b := by
  cases o with
  | none =>
    refine ⟨fun _ a ha => ?_, fun _ => ⟨none, .none, fun b hb => ?_⟩⟩
    · cases ha
    · cases hb
  | some a =>
    constructor
    · rintro ⟨p, hp, hall⟩ a' ha
      cases ha
      cases hp with
      | some hb => exact ⟨_, hb, hall _ rfl⟩
    · intro h
      obtain ⟨b, hb, hq⟩ := h a rfl
      refine ⟨some b, .some hb, fun b' hb' => ?_⟩
      cases hb'
      exact hq

theorem optionRel_none_iff {α β : Type} {R : α → β → Prop} {o : Option α} {p : Option β}
    (h : Option.Rel R o p) : p = none ↔ o = none := by
  cases h with
  | some _ => simp only [reduceCtorEq]
  | none => simp only

theorem EndpointDraft.valid_iff {d : EndpointDraft} :
    d.Valid ↔ ∃ p, d.Describes p ∧ isIdentifier p.label = true := by
  constructor
  · intro h
    obtain ⟨m, hm⟩ := Mapping.forMatching_iff.1 h.matcher
    exact ⟨⟨d.label, m⟩, ⟨rfl, hm⟩, isIdentifier_iff.2 h.label⟩
  · rintro ⟨p, hp, hlabel⟩
    exact ⟨isIdentifier_iff.1 (hp.label ▸ hlabel), Mapping.forMatching_iff.2 ⟨_, hp.matcher⟩⟩

namespace EdgeDraft

variable {d : EdgeDraft} {e : EdgeSchema}

theorem valid_iff : d.Valid ↔ ∃ e, d.Describes e := by
  constructor
  · intro h
    obtain ⟨target, htarget, hlabel⟩ := EndpointDraft.valid_iff.1 h.target
    obtain ⟨properties, hproperties⟩ := Mapping.forEdges_iff.1 h.properties
    obtain ⟨source, hsource, hlabels⟩ := exists_optionRel_iff.2 fun s hs =>
      EndpointDraft.valid_iff.1 (h.source s hs)
    have hvalid : EdgePlan.Valid ⟨d.edgeType, d.direction, target, properties, source⟩ := by
      refine ⟨isIdentifier_iff.2 h.edgeType, hlabel, hlabels, fun hlink => ?_⟩
      have hstands : d.source ≠ none := fun hnone =>
        Option.ne_none_iff_isSome.2 hlink ((optionRel_none_iff hsource).2 hnone)
      obtain ⟨hownerLabel, hownerId⟩ := h.owned hstands
      rw [← hproperties] at hownerLabel hownerId
      exact ⟨Mapping.declaresBatch_iff.2 hownerLabel, Mapping.declaresBatch_iff.2 hownerId⟩
    exact ⟨⟨_, hvalid⟩, rfl, rfl, htarget, hproperties, hsource⟩
  · rintro ⟨e, h⟩
    refine ⟨isIdentifier_iff.1 (h.edgeType ▸ e.valid.edgeType),
      EndpointDraft.valid_iff.2 ⟨_, h.target, e.valid.target⟩,
      Mapping.forEdges_iff.2 ⟨_, h.properties⟩, fun s hs => ?_, fun hstands => ?_⟩
    · exact EndpointDraft.valid_iff.2
        (exists_optionRel_iff.1 ⟨_, h.source, e.valid.source⟩ s hs)
    · have hlink : e.IsMatchLink := Option.ne_none_iff_isSome.1 fun hnone =>
        hstands ((optionRel_none_iff h.source).1 hnone)
      obtain ⟨hownerLabel, hownerId⟩ := e.valid.owned hlink
      rw [← h.properties]
      exact ⟨Mapping.declaresBatch_iff.1 hownerLabel, Mapping.declaresBatch_iff.1 hownerId⟩

theorem Describes.ownerValid_iff (h : d.Describes e) :
    NodePlan.OwnerValid e ↔ d.source = none ∧ d.ToOwner := by
  rw [← optionRel_none_iff h.source]
  constructor
  · rintro ⟨hembedded, hinward, hexact⟩
    exact ⟨hembedded, h.direction ▸ hinward, h.target.matcher ▸ hexact⟩
  · rintro ⟨hembedded, hinward, hexact⟩
    exact ⟨hembedded, h.direction.trans hinward, h.target.matcher ▸ hexact⟩

theorem valid_and_embedded_iff :
    d.Valid ∧ d.source = none ↔ ∃ e, d.Describes e ∧ e.source = none := by
  rw [valid_iff, ← exists_and_right]
  exact exists_congr fun e => and_congr_right fun h => (optionRel_none_iff h.source).symm

theorem valid_and_toOwner_iff :
    d.Valid ∧ d.source = none ∧ d.ToOwner ↔ ∃ e, d.Describes e ∧ NodePlan.OwnerValid e := by
  rw [valid_iff, ← exists_and_right]
  exact exists_congr fun e => and_congr_right fun h => h.ownerValid_iff.symm

end EdgeDraft

theorem NodeDraft.valid_iff {d : NodeDraft} : d.Valid ↔ ∃ s, d.Describes s := by
  have howner : (∀ o, d.owner = some o → o.Valid ∧ o.source = none ∧ o.ToOwner) ↔
      ∃ owner, Option.Rel EdgeDraft.Describes d.owner owner ∧
        ∀ o, owner = some o → NodePlan.OwnerValid o := by
    simp only [EdgeDraft.valid_and_toOwner_iff, exists_optionRel_iff]
  have hedges : (∀ e ∈ d.edges, e.Valid ∧ e.source = none) ↔
      ∃ edges, List.Forall₂ EdgeDraft.Describes d.edges edges ∧
        ∀ e ∈ edges, e.source = none := by
    simp only [EdgeDraft.valid_and_embedded_iff, exists_forall₂_iff]
  constructor
  · intro h
    obtain ⟨properties, hproperties⟩ := Mapping.forNodes_iff.1 h.properties
    obtain ⟨owner, hdescribed, howned⟩ := howner.1 h.owner
    obtain ⟨edges, hall, hembedded⟩ := hedges.1 h.edges
    have hvalid : NodePlan.Valid
        ⟨d.label, properties, d.extraLabels, owner, edges, d.scopedCleanup⟩ := by
      refine ⟨isIdentifier_iff.2 h.label, fun l hl => isIdentifier_iff.2 (h.extraLabels l hl).1,
        List.nodup_cons.2 ⟨fun hl => (h.extraLabels _ hl).2 rfl, h.distinct⟩, howned,
        fun hscoped => ?_, hembedded⟩
      exact Option.isSome_iff_ne_none.2 fun hnone =>
        h.scope hscoped ((optionRel_none_iff hdescribed).1 hnone)
    exact ⟨⟨_, hvalid⟩, rfl, hproperties, rfl, hdescribed, hall, rfl⟩
  · rintro ⟨s, h⟩
    obtain ⟨hother, hdistinct⟩ := List.nodup_cons.1 s.valid.distinct
    rw [h.label, h.extraLabels] at hother
    refine ⟨isIdentifier_iff.1 (h.label ▸ s.valid.label),
      Mapping.forNodes_iff.2 ⟨_, h.properties⟩, fun l hl => ⟨?_, fun he => hother (he ▸ hl)⟩,
      h.extraLabels ▸ hdistinct, howner.2 ⟨_, h.owner, s.valid.owner⟩,
      hedges.2 ⟨_, h.edges, s.valid.embedded⟩, fun hscoped hnone => ?_⟩
    · exact isIdentifier_iff.1 (s.valid.extraLabels l (h.extraLabels ▸ hl))
    · have howned := s.valid.owned (h.scopedCleanup ▸ hscoped)
      exact Option.isSome_iff_ne_none.1 howned ((optionRel_none_iff h.owner).2 hnone)

/-- What is accepted as a schema: an edge, standalone or not, and a node type with its edges, each
described by plain data, pass all checks exactly if they keep every rule, and what is put together
then holds what was described. -/
theorem validation_exact :
    (∀ d : EdgeDraft, ((∃ e, d.build = .ok e) ↔ d.Valid) ∧
      ∀ e, d.build = .ok e → d.Describes e) ∧
    ∀ d : NodeDraft, ((∃ s, d.build = .ok s) ↔ d.Valid) ∧
      ∀ s, d.build = .ok s → d.Describes s := by
  refine ⟨fun d => ⟨?_, fun e => EdgeDraft.build_eq_ok_iff.1⟩,
    fun d => ⟨?_, fun s => NodeDraft.build_eq_ok_iff.1⟩⟩
  · simp only [EdgeDraft.build_eq_ok_iff, EdgeDraft.valid_iff]
  · simp only [NodeDraft.build_eq_ok_iff, NodeDraft.valid_iff]

namespace Sample

/-- The sample schema as plain data. -/
def bucketDraft : NodeDraft where
  label := "Bucket"
  properties := ⟨"Bucket", [(Names.id, .field "id"), (Names.mark, .batch Names.loadTag)]⟩
  extraLabels := []
  owner := some ⟨"RESOURCE", .inward, ⟨"Project", "RESOURCE", [(Names.id, .batch "PROJECT_ID")]⟩,
    ⟨"RESOURCE", [(Names.mark, .batch Names.loadTag)]⟩, none⟩
  edges := [⟨"TAGGED", .outward, ⟨"Tag", "TAGGED", [(Names.id, .field "tag")]⟩,
    ⟨"TAGGED", [(Names.mark, .batch Names.loadTag)]⟩, none⟩]
  scopedCleanup := true

end Sample

/-- The sample keeps all rules, and without an owner it does not. -/
theorem validation_exact_of_sample :
    Sample.bucketDraft.Valid ∧ ¬ { Sample.bucketDraft with owner := none }.Valid := by
  have hexact : ∀ d : NodeDraft, (∃ s, d.build = .ok s) ↔ d.Valid := fun d =>
    (validation_exact.2 d).1
  refine ⟨(hexact _).1 ⟨Sample.bucket, rfl⟩, fun hvalid => ?_⟩
  obtain ⟨s, hs⟩ := (hexact _).2 hvalid
  cases hs

end GraphSync
