import Mathlib.Data.List.Forall2
import GraphSync.Job.Document

/-! What a job document looks like once it has been through a job. Only the iteration sizes that a
job has no use for are not kept. -/
namespace GraphSync

namespace StatementDefinition

variable {d e : StatementDefinition}

/-- What becomes of a statement of a document: a page is never empty, and a statement that is run
once has the default page. -/
structure Kept (d e : StatementDefinition) : Prop where
  query : e.query = d.query
  iterative : e.iterative = d.iterative
  /-- Sizes of iterative statements stay, unless they are zero. -/
  paged : d.iterative = true → e.iterationSize = max d.iterationSize 1
  once : d.iterative = false → e.iterationSize = ({} : LoaderConfig).pageSize

/-- The size is one that a job keeps. -/
structure Settled (d : StatementDefinition) : Prop where
  paged : d.iterative = true → 1 ≤ d.iterationSize
  once : d.iterative = false → d.iterationSize = ({} : LoaderConfig).pageSize

theorem eq_iff : e = d ↔
    e.query = d.query ∧ e.iterative = d.iterative ∧ e.iterationSize = d.iterationSize := by
  cases d
  cases e
  simp

namespace Kept

theorem eq_iff_settled (h : d.Kept e) : e = d ↔ d.Settled := by
  rw [eq_iff]
  constructor
  · rintro ⟨-, -, hsize⟩
    refine ⟨fun hpaged => ?_, fun honce => ?_⟩
    · rw [← hsize, h.paged hpaged]
      exact Nat.le_max_right _ _
    · rw [← hsize, h.once honce]
  · intro hd
    refine ⟨h.query, h.iterative, ?_⟩
    cases hiterative : d.iterative with
    | true => rw [h.paged hiterative, Nat.max_eq_left (hd.paged hiterative)]
    | false => rw [h.once hiterative, hd.once hiterative]

theorem settled (h : d.Kept e) : e.Settled := by
  refine ⟨fun hpaged => ?_, fun honce => ?_⟩
  · rw [h.paged (h.iterative ▸ hpaged)]
    exact Nat.le_max_right _ _
  · exact h.once (h.iterative ▸ honce)

end Kept

end StatementDefinition

namespace JobStatement

theorem kept_definition (params : Parameters) (d : StatementDefinition) :
    d.Kept (ofDefinition params d).definition := by
  constructor
  case query => cases hiterative : d.iterative <;> simp [ofDefinition, hiterative] <;> rfl
  case iterative => cases hiterative : d.iterative <;> simp [ofDefinition, hiterative] <;> rfl
  case paged =>
    intro hiterative
    rw [ofDefinition, if_pos hiterative]
    rfl
  case once =>
    intro hiterative
    rw [ofDefinition, if_neg (Bool.eq_false_iff.1 hiterative)]
    rfl

end JobStatement

namespace Sample

/-- A statement that is run once with a size of its own, and an iterative one of size zero. -/
def sized : JobDefinition where
  name := "Link"
  statements := [⟨"RETURN 1 AS affected", false, 500⟩, ⟨"RETURN 0 AS affected", true, 0⟩]

end Sample

namespace Job

open StatementDefinition (Kept Settled)

/-- Statements are equal if they are so one by one. -/
theorem eq_iff_of_kept {ds es : List StatementDefinition} (h : List.Forall₂ Kept ds es) :
    es = ds ↔ ∀ d ∈ ds, d.Settled := by
  induction h with
  | nil => simp
  | cons hkept _ ih => rw [List.cons.injEq, hkept.eq_iff_settled, ih, List.forall_mem_cons]

theorem settled_of_kept {ds es : List StatementDefinition} (h : List.Forall₂ Kept ds es) :
    ∀ e ∈ es, e.Settled := by
  induction h with
  | nil => exact nofun
  | cons hkept _ ih => exact List.forall_mem_cons.2 ⟨hkept.settled, ih⟩

theorem kept_definition (d : JobDefinition) (common : CommonParameters) :
    List.Forall₂ Kept d.statements (ofDefinition d common).definition.statements := by
  rw [definition, ofDefinition, List.map_map, List.forall₂_map_right_iff]
  exact List.forall₂_same.2 fun s _ => JobStatement.kept_definition _ s

theorem definition_ofDefinition_eq_iff {d : JobDefinition} {common : CommonParameters} :
    (ofDefinition d common).definition = d ↔ ∀ s ∈ d.statements, s.Settled := by
  rw [← eq_iff_of_kept (kept_definition d common)]
  exact ⟨congrArg _, congrArg (JobDefinition.mk d.name)⟩

/-- The document of a job that was made of one has the same name and the same statements, each with
its text, its flag and the size that the job uses. It is the document that the job was made of if
every size there is one that a job uses, and only then, so another job changes nothing more. -/
theorem document_after_job (d : JobDefinition) (common : CommonParameters) :
    (ofDefinition d common).definition.name = d.name ∧
    List.Forall₂ Kept d.statements (ofDefinition d common).definition.statements ∧
    ((ofDefinition d common).definition = d ↔ ∀ s ∈ d.statements, s.Settled) ∧
    ∀ other, (ofDefinition (ofDefinition d common).definition other).definition =
      (ofDefinition d common).definition := by
  have hkept := kept_definition d common
  refine ⟨rfl, hkept, definition_ofDefinition_eq_iff, fun other => ?_⟩
  exact definition_ofDefinition_eq_iff.2 (settled_of_kept hkept)

/-- A document whose sizes are lost: the first is of a statement that is run once, the second is of
an empty page. -/
theorem document_loses_sizes :
    (ofDefinition Sample.sized (.ofTag 1)).definition =
      ⟨"Link", [⟨"RETURN 1 AS affected", false, 100⟩, ⟨"RETURN 0 AS affected", true, 1⟩]⟩ ∧
    (ofDefinition Sample.sized (.ofTag 1)).definition ≠ Sample.sized := by
  decide

end Job

end GraphSync
