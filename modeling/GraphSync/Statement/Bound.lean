import GraphSync.Error
import GraphSync.Statement.Cypher

/-! Statements with the values of their parameters. -/
namespace GraphSync

structure BoundStatement where
  statement : Statement
  parameters : Parameters

namespace BoundStatement

/-- The first parameter in the text, in name order, that has no value. -/
def unbound? (b : BoundStatement) : Option String :=
  b.statement.parameters.find? fun name => !b.parameters.contains name

/-- Refuses a statement whose text refers to a parameter without a value. -/
def check (b : BoundStatement) : Except GraphError Unit :=
  match b.unbound? with
  | some name => .error (.missingParameter b.statement.kind name)
  | none => .ok ()

/-- A check asks for a value of every name in the text. -/
theorem check_eq_ok_iff {b : BoundStatement} :
    b.check = .ok () ↔ ∀ name ∈ b.statement.parameters, b.parameters.contains name = true := by
  have hnone : b.check = .ok () ↔ b.unbound? = none := by
    rw [check]
    split <;> simp_all
  simp only [hnone, unbound?, List.find?_eq_none, Bool.not_eq_true', Bool.not_eq_false]

/-- A check that fails tells of a name in the text without a value. -/
theorem missing_of_check {b : BoundStatement} {e : GraphError} (h : b.check = .error e) :
    ∃ name ∈ b.statement.parameters, b.parameters.contains name = false ∧
      e = .missingParameter b.statement.kind name := by
  rw [check] at h
  split at h
  · next name hname =>
    cases h
    have hunbound := List.find?_some hname
    exact ⟨name, List.mem_of_find?_eq_some hname, by simpa using hunbound, rfl⟩
  · cases h

end BoundStatement

end GraphSync
