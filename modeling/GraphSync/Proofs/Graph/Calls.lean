import GraphSync.Proofs.Graph.WellFormed

/-! A store over its lifetime: nodes put in, and transactions that succeed or fail. -/
namespace GraphSync

/-- What a store is asked to do: keep a node as it is given, or run statements in one
transaction, at the time that its clock shows. -/
inductive Call where
  | seed (labels : List String) (properties : Record)
  | execute (now : Int) (statements : List BoundStatement)

namespace Graph

/-- What a call leaves behind, whether it succeeds or not. -/
def call (g : Graph) : Call → Graph
  | .seed labels properties => g.addNode ⟨.ofKeys labels, properties⟩
  | .execute now statements => (GraphM.transact now statements g).2

/-- The graph of a new store after some calls. -/
def afterCalls (calls : List Call) : Graph := calls.foldl call .empty

/-- The statements of a call that take effect: all of them, or none if one fails. -/
def effective (g : Graph) : Call → List BoundStatement
  | .seed _ _ => []
  | .execute now statements =>
    match g.execute now statements with
    | .ok _ => statements
    | .error _ => []

/-- The statements of calls that take effect, in order. -/
def committed : Graph → List Call → List BoundStatement
  | _, [] => []
  | g, c :: rest => g.effective c ++ committed (g.call c) rest

variable {g h : Graph} {now : Int} {statements : List BoundStatement}

theorem call_execute :
    g.call (.execute now statements) = (GraphM.transact now statements g).2 := rfl

theorem call_of_ok {affected : List Nat} (hrun : g.execute now statements = .ok (h, affected)) :
    g.call (.execute now statements) = h := by
  simp only [call, GraphM.transact, hrun]

theorem call_of_error {e : GraphError} (hrun : g.execute now statements = .error e) :
    g.call (.execute now statements) = g := by
  simp only [call, GraphM.transact, hrun]

/-- A transaction that succeeds applies its statements, and one that fails applies none. -/
theorem execute_effective (g : Graph) (now : Int) (statements : List BoundStatement) :
    ∃ affected, g.execute now (g.effective (.execute now statements)) =
      .ok (g.call (.execute now statements), affected) := by
  cases hrun : g.execute now statements with
  | ok done =>
    obtain ⟨h, affected⟩ := done
    rw [call_of_ok hrun]
    simp only [effective, hrun]
    exact ⟨affected, rfl⟩
  | error e =>
    rw [call_of_error hrun]
    simp only [effective, hrun]
    exact ⟨[], rfl⟩

/-- Only statements that a store is given take effect. -/
theorem mem_committed {calls : List Call} {b : BoundStatement} (hb : b ∈ committed g calls) :
    ∃ now statements, .execute now statements ∈ calls ∧ b ∈ statements := by
  induction calls generalizing g with
  | nil => cases hb
  | cons c rest ih =>
    rcases List.mem_append.1 hb with hb | hb
    · cases c with
      | seed labels properties => cases hb
      | execute now statements =>
        refine ⟨now, statements, List.mem_cons_self, ?_⟩
        rw [effective] at hb
        split at hb
        · exact hb
        · cases hb
    · obtain ⟨now, statements, hc, hmem⟩ := ih hb
      exact ⟨now, statements, List.mem_cons_of_mem c hc, hmem⟩

theorem steps_call_execute : Steps now g (g.call (.execute now statements)) := by
  obtain ⟨affected, hrun⟩ := execute_effective g now statements
  exact steps_of_execute hrun

theorem afterCalls_concat (calls : List Call) (c : Call) :
    afterCalls (calls ++ [c]) = (afterCalls calls).call c := by
  rw [afterCalls, List.foldl_append]
  rfl

theorem Reachable.call (hg : g.Reachable) (c : Call) : (g.call c).Reachable := by
  cases c with
  | seed labels properties => exact .seed labels properties hg
  | execute now statements =>
    obtain ⟨affected, hrun⟩ := execute_effective g now statements
    exact .execute hg hrun

theorem Reachable.foldl_call (hg : g.Reachable) (calls : List Call) :
    (calls.foldl Graph.call g).Reachable := by
  induction calls generalizing g with
  | nil => exact hg
  | cons c rest ih => exact ih (hg.call c)

/-- The reachable graphs are those that calls lead to. -/
theorem reachable_iff : g.Reachable ↔ ∃ calls, afterCalls calls = g := by
  constructor
  · intro hg
    induction hg with
    | empty => exact ⟨[], rfl⟩
    | seed labels r _ ih =>
      obtain ⟨calls, rfl⟩ := ih
      exact ⟨calls ++ [.seed labels r], afterCalls_concat calls _⟩
    | @execute g h now statements affected _ hrun ih =>
      obtain ⟨calls, rfl⟩ := ih
      refine ⟨calls ++ [.execute now statements], ?_⟩
      rw [afterCalls_concat, call_of_ok hrun]
  · rintro ⟨calls, rfl⟩
    exact Reachable.empty.foldl_call calls

/-- Whatever a store is asked to do, and whichever of it fails: edges join nodes that are there, no
two edges of a type join the same nodes, and no key is used twice or ahead of its turn. -/
theorem wellFormed_afterCalls (calls : List Call) : (afterCalls calls).WellFormed :=
  (Reachable.empty.foldl_call calls).wellFormed

end Graph

end GraphSync
