import GraphSync.Graph.Sweep
import GraphSync.Statement.Bound

/-! Running statements on a graph, all of them or none. -/
namespace GraphSync

theorem bind_eq_ok_iff {ε α β : Type} {x : Except ε α} {f : α → Except ε β} {b : β} :
    (x >>= f) = .ok b ↔ ∃ a, x = .ok a ∧ f a = .ok b := by
  cases x with
  | error e => simp [bind, Except.bind]
  | ok a => simp [bind, Except.bind]

/-- Checks made one by one fail with the error of one of them. -/
theorem exists_of_forM_eq_error {ε α : Type} {check : α → Except ε Unit} {xs : List α} {e : ε}
    (h : xs.forM check = .error e) : ∃ x ∈ xs, check x = .error e := by
  induction xs with
  | nil => cases h
  | cons x rest ih =>
    rw [List.forM] at h
    cases hx : check x with
    | error f =>
      rw [hx] at h
      cases h
      exact ⟨x, List.mem_cons_self, hx⟩
    | ok _ =>
      rw [hx] at h
      obtain ⟨y, hy, he⟩ := ih h
      exact ⟨y, List.mem_cons_of_mem _ hy, he⟩

namespace Graph

variable (now : Int)

/-- What one statement makes of a graph, and how many rows it affects. -/
def apply (g : Graph) (s : Statement) (params : Parameters) : Except GraphError (Graph × Nat) :=
  match s with
  | .createIndex target => .ok ({ g with indexes := SortedSet.add g.indexes target }, 0)
  | .upsertNodes u => g.upsertNodes now u params
  | .upsertEdges u => g.upsertEdges now u params
  | .upsertLinks u => g.upsertLinks now u params
  | .sweepNodes label scope => g.sweepNodes params label scope
  | .sweepOwnership label scope => g.sweepEdgesWhere params (g.isOwnership params label scope)
  | .sweepEdges label scope edge =>
    g.sweepEdgesWhere params (g.isScopedEdge params label scope edge)
  | .sweepLinks sweep => g.sweepEdgesWhere params (g.isAttributed params sweep)
  | .linkByProperty l => g.linkByProperty now l params
  | .raw _ => .error (.uninterpretable s.kind)

/-- Statements in order, each checked before it is applied; the affected rows of each. -/
def execute (g : Graph) : List BoundStatement → Except GraphError (Graph × List Nat)
  | [] => .ok (g, [])
  | b :: rest => do
    b.check
    let (g, affected) ← g.apply now b.statement b.parameters
    let (g, others) ← g.execute rest
    return (g, affected :: others)

end Graph

/-- Work on a graph that may fail; what was done before a failure stays done. -/
abbrev GraphM (ε α : Type) := ExceptT ε (StateM Graph) α

namespace GraphM

/-- One transaction: a failure leaves the graph as it was. -/
def transact (now : Int) (statements : List BoundStatement) : GraphM GraphError (List Nat) :=
  fun g =>
    match g.execute now statements with
    | .ok (g, affected) => (.ok affected, g)
    | .error e => (.error e, g)

/-- Lifts a check that does not touch the graph. -/
def ofExcept {ε δ α : Type} (wrap : δ → ε) : Except δ α → GraphM ε α
  | .ok a => pure a
  | .error e => throw (wrap e)

/-- The same work with its errors wrapped. -/
def mapError {ε δ α : Type} (wrap : δ → ε) (work : GraphM δ α) : GraphM ε α :=
  fun g =>
    match work g with
    | (.ok a, g) => (.ok a, g)
    | (.error e, g) => (.error (wrap e), g)

variable {ε δ α β : Type} {work : GraphM ε α} {next : α → GraphM ε β} {g h : Graph} {a : α} {b : β}

theorem bind_of_ok (hw : work g = (.ok a, h)) : (work >>= next) g = next a h := by
  simp only [bind, ExceptT.bind, ExceptT.mk, StateT.bind, hw, ExceptT.bindCont]

theorem bind_of_error {e : ε} (hw : work g = (.error e, h)) :
    (work >>= next) g = (.error e, h) := by
  simp only [bind, ExceptT.bind, ExceptT.mk, StateT.bind, hw, ExceptT.bindCont]
  rfl

theorem discard_of_ok (hw : work g = (.ok a, h)) :
    (discard work : GraphM ε Unit) g = (.ok (), h) := by
  change (work >>= fun _ => pure ()) g = (.ok (), h)
  rw [bind_of_ok hw]
  rfl

theorem bind_eq_ok_iff : (work >>= next) g = (.ok b, h) ↔
    ∃ a mid, work g = (.ok a, mid) ∧ next a mid = (.ok b, h) := by
  rcases hw : work g with ⟨e | a, mid⟩
  · rw [bind_of_error hw]
    constructor
    · intro hx
      cases hx
    · rintro ⟨c, i, hc, -⟩
      cases hc
  · rw [bind_of_ok hw]
    constructor
    · exact fun hn => ⟨a, mid, rfl, hn⟩
    · rintro ⟨c, i, hc, hn⟩
      cases hc
      exact hn

theorem map_eq_ok_iff {f : α → β} :
    (f <$> work) g = (.ok b, h) ↔ ∃ a, work g = (.ok a, h) ∧ f a = b := by
  change (work >>= fun a => pure (f a)) g = _ ↔ _
  rw [bind_eq_ok_iff]
  constructor
  · rintro ⟨a, mid, hw, hpure⟩
    cases hpure
    exact ⟨a, hw, rfl⟩
  · rintro ⟨a, hw, rfl⟩
    exact ⟨a, h, hw, rfl⟩

theorem ofExcept_eq_ok_iff {wrap : δ → ε} {x : Except δ α} :
    (ofExcept wrap x) g = (.ok a, h) ↔ x = .ok a ∧ h = g := by
  constructor
  · intro hx
    cases x with
    | error e => cases hx
    | ok c =>
      cases hx
      exact ⟨rfl, rfl⟩
  · rintro ⟨rfl, rfl⟩
    rfl

theorem mapError_eq_ok_iff {wrap : δ → ε} {work : GraphM δ α} :
    (mapError wrap work) g = (.ok a, h) ↔ work g = (.ok a, h) := by
  simp only [mapError]
  constructor
  · intro hx
    split at hx
    · next hw =>
      cases hx
      exact hw
    · cases hx
  · intro hw
    rw [hw]

theorem mapError_bind (wrap : δ → ε) (work : GraphM δ α) (next : α → GraphM δ β) :
    mapError wrap (work >>= next) = mapError wrap work >>= fun a => mapError wrap (next a) := by
  funext g
  rcases hw : work g with ⟨e | a, mid⟩
  · rw [bind_of_error (e := wrap e) (h := mid) (by rw [mapError, hw]), mapError, bind_of_error hw]
  · rw [bind_of_ok (a := a) (h := mid) (by rw [mapError, hw]), mapError, bind_of_ok hw, mapError]

theorem transact_eq_ok_iff {now : Int} {statements : List BoundStatement} {affected : List Nat} :
    transact now statements g = (.ok affected, h) ↔
      g.execute now statements = .ok (h, affected) := by
  rw [transact]
  constructor
  · intro hx
    split at hx
    · next hrun =>
      cases hx
      exact hrun
    · cases hx
  · intro hrun
    rw [hrun]

end GraphM

end GraphSync
