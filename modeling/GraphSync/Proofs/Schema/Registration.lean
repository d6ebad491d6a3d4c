import GraphSync.Schema.Registry
import GraphSync.Statement.Compile
import GraphSync.Proofs.Sample
import GraphSync.Proofs.Statement.Revealing

/-! A registry over its lifetime. Schemas and scopes are kept apart, and stay in step over any
calls, whichever of them fail. -/
namespace GraphSync

/-! What sweeps for stale nodes have to do with the scope of a schema. -/

/-- The cleanup scope that a sweep for stale nodes has. -/
def CleanupScope.ofSweep : Option Scope → CleanupScope
  | none => .unscoped
  | some s => .owned s.edgeType s.owner.label

/-- Both sweeps are unscoped, or both go through edges of one type to owners of one label. -/
def Scope.SameReach : Option Scope → Option Scope → Prop :=
  Option.Rel fun a b => a.edgeType = b.edgeType ∧ a.owner.label = b.owner.label

/-- Labels and scopes of the sweeps for stale nodes among some statements. -/
def nodeSweeps (statements : List Statement) : List (String × Option Scope) :=
  statements.filterMap fun
    | .sweepNodes label scope => some (label, scope)
    | _ => none

theorem Scope.sameReach_iff {a b : Option Scope} :
    SameReach a b ↔ CleanupScope.ofSweep a = CleanupScope.ofSweep b := by
  cases a <;> cases b <;> simp [SameReach, CleanupScope.ofSweep]

namespace NodeSchema

theorem ofSweep_scope (s : NodeSchema) : CleanupScope.ofSweep s.scope = s.cleanupScope := by
  rw [scope, cleanupScope]
  cases s.scopingEdge <;> rfl

/-- One statement sweeps nodes, within the scope of the schema. -/
theorem nodeSweeps_cleanupStatements (s : NodeSchema) :
    nodeSweeps s.cleanupStatements = [(s.label, s.scope)] := by
  have hedges : nodeSweeps (s.edges.map fun e => .sweepEdges s.label s.scope e.pattern) = [] := by
    simp [nodeSweeps]
  have hownership : nodeSweeps s.ownershipSweep.toList = [] := by
    rw [ownershipSweep]
    cases s.scope <;> cases s.owner <;> rfl
  rw [nodeSweeps] at hedges hownership
  rw [cleanupStatements, nodeSweeps, List.filterMap_append, List.filterMap_cons, hedges, hownership]
  rfl

end NodeSchema

/-- What a registry is asked to do: keep a schema, or a variant of it. -/
structure Registration where
  variant : Option String
  schema : NodeSchema

namespace Registration

variable {c d : Registration}

/-- The key that the schema is kept under. -/
def key (c : Registration) : String := Registry.key c.schema.label c.variant

/-- What follows the label in a key. -/
def suffix (c : Registration) : List Char :=
  match c.variant with
  | none => []
  | some variant => '/' :: variant.toList

/-- One of some calls is for the same label and variant. -/
def Repeats (c : Registration) (cs : List Registration) : Prop :=
  ∃ d ∈ cs, d.schema.label = c.schema.label ∧ d.variant = c.variant

/-- Why a call fails after some that succeeded: it repeats one of them, or one gave the label
another scope. -/
inductive Refused (c : Registration) (cs : List Registration) : SchemaError → Prop
  | repeated : c.Repeats cs → Refused c cs (.duplicateSchema c.key)
  | contradicting {d : Registration} : ¬ c.Repeats cs → d ∈ cs →
      d.schema.label = c.schema.label → d.schema.cleanupScope ≠ c.schema.cleanupScope →
      Refused c cs (.scopeConflict c.schema.label d.schema.cleanupScope c.schema.cleanupScope)

theorem toList_key (c : Registration) : c.key.toList = c.schema.label.toList ++ c.suffix := by
  obtain ⟨variant, s⟩ := c
  cases variant with
  | none => exact (List.append_nil _).symm
  | some v =>
    rw [key, Registry.key, String.toList_append, String.toList_append, List.append_assoc]
    rfl

theorem takeWhile_suffix (c : Registration) : c.suffix.takeWhile Placeholder.isNameChar = [] := by
  rw [suffix]
  cases c.variant <;> rfl

theorem variant_eq_of_suffix (h : c.suffix = d.suffix) : c.variant = d.variant := by
  rw [suffix, suffix] at h
  cases hc : c.variant <;> cases hd : d.variant <;> simp_all [String.toList_inj]

/-- Keys tell labels and variants apart, since a label has no separator in it. -/
theorem key_eq_iff :
    c.key = d.key ↔ c.schema.label = d.schema.label ∧ c.variant = d.variant := by
  constructor
  · intro h
    have htext : c.schema.label.toList ++ c.suffix = d.schema.label.toList ++ d.suffix := by
      rw [← toList_key, ← toList_key, h]
    obtain ⟨hlabel, hsuffix⟩ := Placeholder.Reveals.name
      (Placeholder.nameText_of_isIdentifier c.schema.valid.label)
      (Placeholder.nameText_of_isIdentifier d.schema.valid.label)
      _ _ (takeWhile_suffix c) (takeWhile_suffix d) htext
    exact ⟨hlabel, variant_eq_of_suffix hsuffix⟩
  · rintro ⟨hlabel, hvariant⟩
    rw [key, key, hlabel, hvariant]

end Registration

namespace Registry

/-- What a call leaves behind, whether it succeeds or not. -/
def call (r : Registry) (c : Registration) : Registry := (insert c.key c.schema r).2

/-- The registry after some calls, empty before them. -/
def afterCalls (calls : List Registration) : Registry := calls.foldl call .empty

/-- The call itself, if it succeeds. -/
def effective (r : Registry) (c : Registration) : List Registration :=
  match r.register c.variant c.schema with
  | .ok _ => [c]
  | .error _ => []

/-- The calls that succeed, in order. -/
def accepted : Registry → List Registration → List Registration
  | _, [] => []
  | r, c :: rest => r.effective c ++ accepted (r.call c) rest

/-- The registry with a schema under a key, and with its scope for its label. -/
def put (r : Registry) (key : String) (s : NodeSchema) : Registry :=
  ⟨r.schemas.insert key s, r.scopes.insert s.label s.cleanupScope⟩

/-- A registry in which some calls have succeeded. Its two maps tell the same calls. -/
structure Keeps (r : Registry) (cs : List Registration) : Prop where
  schemas : ∀ key s, r.get? key = some s ↔ ∃ c ∈ cs, c.key = key ∧ c.schema = s
  scopes : ∀ label scope, r.scopeOf label = some scope ↔
    ∃ c ∈ cs, c.schema.label = label ∧ c.schema.cleanupScope = scope

/-- What holds of the schemas in a registry and their scopes. -/
structure InStep (r : Registry) : Prop where
  /-- The scope of a label is the one that its schemas have. -/
  agreed : ∀ key s, r.get? key = some s → r.scopeOf s.label = some s.cleanupScope
  /-- Only the labels of schemas have one. -/
  unknown : ∀ label, r.scopeOf label = none ↔ ∀ key s, r.get? key = some s → s.label ≠ label
  /-- Two schemas of one label have the same scope, and one sweep for nodes each, which reach the
  same nodes. -/
  alike : ∀ key s other t, r.get? key = some s → r.get? other = some t → s.label = t.label →
    s.cleanupScope = t.cleanupScope ∧
    ∃ a b, nodeSweeps s.cleanupStatements = [(s.label, a)] ∧
      nodeSweeps t.cleanupStatements = [(s.label, b)] ∧ Scope.SameReach a b

variable {r : Registry} {c : Registration} {cs : List Registration} {key : String}
  {s : NodeSchema}

theorem get?_put (l : String) : (r.put key s).get? l = if l = key then some s else r.get? l :=
  SortedMap.find?_insert ..

theorem scopeOf_put (label : String) : (r.put key s).scopeOf label =
    if label = s.label then some s.cleanupScope else r.scopeOf label :=
  SortedMap.find?_insert ..

/-! A call that succeeds puts the schema there, and one that fails does nothing. -/

theorem insert_eq : insert key s r =
    match r.fault? key s with
    | some e => (.error e, r)
    | none => (.ok (), r.put key s) := by
  have hget : (get : RegistryM Registry) r = (.ok r, r) := rfl
  simp only [insert, bind, ExceptT.bind, ExceptT.mk, StateT.bind, hget, ExceptT.bindCont]
  cases r.fault? key s <;> rfl

theorem register_eq (r : Registry) (c : Registration) : r.register c.variant c.schema =
    match r.fault? c.key c.schema with
    | some e => .error e
    | none => .ok (r.put c.key c.schema) := by
  rw [register, ← Registration.key, insert_eq]
  cases r.fault? c.key c.schema <;> rfl

theorem register_eq_error_iff {e : SchemaError} :
    r.register c.variant c.schema = .error e ↔ r.fault? c.key c.schema = some e := by
  rw [register_eq]
  cases r.fault? c.key c.schema <;> simp

theorem call_of_fault? {e : SchemaError} (h : r.fault? c.key c.schema = some e) :
    r.call c = r ∧ r.effective c = [] := by
  rw [call, insert_eq, effective, register_eq, h]
  exact ⟨rfl, rfl⟩

theorem call_of_sound (h : r.fault? c.key c.schema = none) :
    r.call c = r.put c.key c.schema ∧ r.effective c = [c] := by
  rw [call, insert_eq, effective, register_eq, h]
  exact ⟨rfl, rfl⟩

theorem fault?_eq_none_iff : r.fault? key s = none ↔
    r.get? key = none ∧ ∀ scope, r.scopeOf s.label = some scope → scope = s.cleanupScope := by
  rw [fault?, SortedMap.contains, ← get?]
  cases r.get? key <;> cases r.scopeOf s.label <;> simp

theorem fault?_eq_some_iff {e : SchemaError} : r.fault? key s = some e ↔
    (r.get? key ≠ none ∧ e = .duplicateSchema key) ∨
    (r.get? key = none ∧ ∃ scope, r.scopeOf s.label = some scope ∧ scope ≠ s.cleanupScope ∧
      e = .scopeConflict s.label scope s.cleanupScope) := by
  rw [fault?, SortedMap.contains, ← get?]
  cases r.get? key <;> cases r.scopeOf s.label <;> simp [eq_comm]

namespace Keeps

theorem empty : Keeps .empty [] :=
  ⟨fun _ _ => by simp [get?, Registry.empty], fun _ _ => by simp [scopeOf, Registry.empty]⟩

/-- A key is taken by the calls for its label and variant. -/
theorem get?_eq_none_iff (h : r.Keeps cs) : r.get? c.key = none ↔ ¬ c.Repeats cs := by
  rw [Option.eq_none_iff_forall_ne_some]
  constructor
  · rintro hnone ⟨d, hd, hsame⟩
    exact hnone _ ((h.schemas _ _).2 ⟨d, hd, Registration.key_eq_iff.2 hsame, rfl⟩)
  · intro hnew s hs
    obtain ⟨d, hd, hkey, -⟩ := (h.schemas _ _).1 hs
    exact hnew ⟨d, hd, Registration.key_eq_iff.1 hkey⟩

/-- One more call succeeds: its key is new, and its scope is the one of its label, if there is
one. -/
theorem put (h : r.Keeps cs) (hkey : r.get? c.key = none)
    (hscope : ∀ scope, r.scopeOf c.schema.label = some scope → scope = c.schema.cleanupScope) :
    (r.put c.key c.schema).Keeps (cs ++ [c]) := by
  have hsplit : ∀ p : Registration → Prop, (∃ d ∈ cs ++ [c], p d) ↔ p c ∨ ∃ d ∈ cs, p d := by
    simp [or_and_right, exists_or, or_comm]
  constructor
  · intro key s
    rw [get?_put, hsplit, ← h.schemas]
    split
    · next hk =>
      subst hk
      simp [hkey]
    · next hk => simp [Ne.symm hk]
  · intro label scope
    rw [scopeOf_put, hsplit, ← h.scopes]
    split
    · next hl =>
      subst hl
      constructor
      · rintro ⟨rfl⟩
        exact .inl ⟨rfl, rfl⟩
      · rintro (⟨-, rfl⟩ | hold)
        · rfl
        · rw [hscope scope hold]
    · next hl => simp [Ne.symm hl]

/-- A step: what a call leaves behind keeps the calls before, and this one if it succeeds. -/
theorem call (h : r.Keeps cs) (c : Registration) : (r.call c).Keeps (cs ++ r.effective c) := by
  cases hfault : r.fault? c.key c.schema with
  | none =>
    obtain ⟨hcall, heffective⟩ := call_of_sound hfault
    obtain ⟨hkey, hscope⟩ := fault?_eq_none_iff.1 hfault
    rw [hcall, heffective]
    exact h.put hkey hscope
  | some e =>
    obtain ⟨hcall, heffective⟩ := call_of_fault? hfault
    rw [hcall, heffective, List.append_nil]
    exact h

/-- A run: of the calls, those are kept that succeeded. -/
theorem foldl_call (h : r.Keeps cs) (calls : List Registration) :
    (calls.foldl Registry.call r).Keeps (cs ++ accepted r calls) := by
  induction calls generalizing r cs with
  | nil => exact (List.append_nil cs).symm ▸ h
  | cons c rest ih =>
    rw [accepted, ← List.append_assoc]
    exact ih (h.call c)

theorem fault?_eq_some_iff {e : SchemaError} (h : r.Keeps cs) :
    r.fault? c.key c.schema = some e ↔ c.Refused cs e := by
  rw [Registry.fault?_eq_some_iff, Ne, h.get?_eq_none_iff, not_not]
  constructor
  · rintro (⟨hsame, rfl⟩ | ⟨hnew, scope, hscope, hne, rfl⟩)
    · exact .repeated hsame
    · obtain ⟨d, hd, hlabel, rfl⟩ := (h.scopes _ _).1 hscope
      exact .contradicting hnew hd hlabel hne
  · rintro (hsame | ⟨hnew, hd, hlabel, hne⟩)
    · exact .inl ⟨hsame, rfl⟩
    · exact .inr ⟨hnew, _, (h.scopes _ _).2 ⟨_, hd, hlabel, rfl⟩, hne, rfl⟩

theorem scopeOf_eq (h : r.Keeps cs) (hs : r.get? key = some s) :
    r.scopeOf s.label = some s.cleanupScope := by
  obtain ⟨c, hc, -, rfl⟩ := (h.schemas _ _).1 hs
  exact (h.scopes _ _).2 ⟨c, hc, rfl, rfl⟩

theorem inStep (h : r.Keeps cs) : r.InStep := by
  constructor
  case agreed => exact fun key s hs => h.scopeOf_eq hs
  case unknown =>
    intro label
    rw [Option.eq_none_iff_forall_ne_some]
    constructor
    · rintro hnone key s hs rfl
      exact hnone _ (h.scopeOf_eq hs)
    · intro hother scope hscope
      obtain ⟨c, hc, hlabel, -⟩ := (h.scopes _ _).1 hscope
      exact hother _ _ ((h.schemas _ _).2 ⟨c, hc, rfl, rfl⟩) hlabel
  case alike =>
    intro key s other t hs ht hlabel
    have hscope : s.cleanupScope = t.cleanupScope := by
      have hagreed := h.scopeOf_eq hs
      rw [hlabel, h.scopeOf_eq ht] at hagreed
      exact (Option.some.inj hagreed).symm
    refine ⟨hscope, s.scope, t.scope, s.nodeSweeps_cleanupStatements, ?_, ?_⟩
    · rw [hlabel, t.nodeSweeps_cleanupStatements]
    · rw [Scope.sameReach_iff, s.ofSweep_scope, t.ofSweep_scope, hscope]

end Keeps

theorem keeps_afterCalls (calls : List Registration) :
    (afterCalls calls).Keeps (accepted .empty calls) := Keeps.empty.foldl_call calls

theorem afterCalls_concat (calls : List Registration) (c : Registration) :
    afterCalls (calls ++ [c]) = (afterCalls calls).call c := by
  rw [afterCalls, List.foldl_append]
  rfl

/-- A registry after any calls. Its scopes are in step with its schemas, which are those of the
calls that succeeded, each under a key that no other label or variant has. A call fails for a label
and variant that one before was for, or for another scope of its label, and changes nothing then. -/
theorem scope_agreement (calls : List Registration) :
    (afterCalls calls).InStep ∧
    (∀ key s, (afterCalls calls).get? key = some s ↔
      ∃ c ∈ accepted .empty calls, c.key = key ∧ c.schema = s) ∧
    (∀ c d : Registration,
      c.key = d.key ↔ c.schema.label = d.schema.label ∧ c.variant = d.variant) ∧
    (∀ (c : Registration) e, (afterCalls calls).register c.variant c.schema = .error e ↔
      c.Refused (accepted .empty calls) e) ∧
    ∀ (c : Registration) e, (afterCalls calls).register c.variant c.schema = .error e →
      afterCalls (calls ++ [c]) = afterCalls calls := by
  have hkeeps : (afterCalls calls).Keeps (accepted .empty calls) := keeps_afterCalls calls
  refine ⟨hkeeps.inStep, hkeeps.schemas, fun _ _ => Registration.key_eq_iff,
    fun c e => register_eq_error_iff.trans hkeeps.fault?_eq_some_iff, fun c e hfails => ?_⟩
  rw [afterCalls_concat]
  exact (call_of_fault? (register_eq_error_iff.1 hfails)).1

end Registry

namespace Sample

/-- Buckets that are cleaned up whoever owns them. -/
def anyBucket : NodeSchema :=
  { bucket with scopedCleanup := false, valid := NodePlan.fault?_eq_none_iff.1 (by decide) }

/-- Buckets, a variant of them without a name, and others that are refused. -/
def registrations : List Registration :=
  [⟨none, bucket⟩, ⟨some "", bucket⟩, ⟨some "any", anyBucket⟩, ⟨some "", anyBucket⟩, ⟨none, host⟩]

end Sample

namespace Registry

theorem scope_agreement_of_sample :
    (accepted .empty Sample.registrations).map Registration.key = ["Bucket", "Bucket/", "Host"] ∧
    (afterCalls Sample.registrations).scopeOf "Bucket" = some (.owned "RESOURCE" "Project") ∧
    (afterCalls Sample.registrations).scopeOf "Tag" = none ∧
    (afterCalls Sample.registrations).register (some "any") Sample.anyBucket =
      .error (.scopeConflict "Bucket" (.owned "RESOURCE" "Project") .unscoped) ∧
    (afterCalls Sample.registrations).register (some "") Sample.anyBucket =
      .error (.duplicateSchema "Bucket/") ∧
    afterCalls (Sample.registrations ++ [⟨some "any", Sample.anyBucket⟩]) =
      afterCalls Sample.registrations := by
  have haccepted : accepted .empty Sample.registrations =
    [⟨none, Sample.bucket⟩, ⟨some "", Sample.bucket⟩, ⟨none, Sample.host⟩] := rfl
  obtain ⟨hstep, hschemas, hkey, herror, hunchanged⟩ := scope_agreement Sample.registrations
  rw [haccepted] at hschemas herror
  have hbucket : (afterCalls Sample.registrations).get? "Bucket" = some Sample.bucket :=
    (hschemas _ _).2 ⟨_, List.mem_cons_self, rfl, rfl⟩
  have hnew : ¬ Registration.Repeats ⟨some "any", Sample.anyBucket⟩
      [⟨none, Sample.bucket⟩, ⟨some "", Sample.bucket⟩, ⟨none, Sample.host⟩] := by
    simp [Registration.Repeats, Sample.anyBucket, Sample.host]
  have hconflict := (herror ⟨some "any", Sample.anyBucket⟩ _).2
    (.contradicting hnew List.mem_cons_self rfl (by decide))
  have hrepeated := (herror ⟨some "", Sample.anyBucket⟩ _).2
    (.repeated ⟨⟨some "", Sample.bucket⟩, by simp, rfl, rfl⟩)
  refine ⟨congrArg _ haccepted, hstep.agreed _ _ hbucket, (hstep.unknown _).2 fun key s hs => ?_,
    hconflict, hrepeated, hunchanged _ _ hconflict⟩
  obtain ⟨c, hc, -, rfl⟩ := (hschemas _ _).1 hs
  revert c
  simp [Sample.bucket, Sample.host]

end Registry

end GraphSync
