import Mathlib.Data.List.Basic
import Mathlib.Data.List.Induction

/-! What is left of a list when each element is kept only at its first place, or only if it agrees
with none that is kept before it. -/
namespace GraphSync

section Kept

variable {α : Type} {r : α → α → Bool} {as : List α} {b : α}

theorem loop_concat (acc : List α) : List.eraseDupsBy.loop r (as ++ [b]) acc =
    if (List.eraseDupsBy.loop r as acc).any (r b) then List.eraseDupsBy.loop r as acc
    else List.eraseDupsBy.loop r as acc ++ [b] := by
  induction as generalizing acc with
  | nil =>
    rw [List.nil_append, List.eraseDupsBy.loop, List.eraseDupsBy.loop, List.any_reverse]
    cases acc.any (r b)
    · exact List.reverse_cons
    · rfl
  | cons a as ih =>
    rw [List.cons_append, List.eraseDupsBy.loop, List.eraseDupsBy.loop]
    cases acc.any (r a)
    · exact ih _
    · exact ih _

/-- One more element is kept if it agrees with none that is. -/
theorem eraseDupsBy_concat : (as ++ [b]).eraseDupsBy r =
    if (as.eraseDupsBy r).any (r b) then as.eraseDupsBy r else as.eraseDupsBy r ++ [b] :=
  loop_concat []

theorem eraseDupsBy_sublist : (as.eraseDupsBy r).Sublist as := by
  induction as using List.reverseRecOn with
  | nil => exact List.Sublist.refl _
  | append_singleton as b ih =>
    rw [eraseDupsBy_concat]
    split
    · exact ih.trans (List.sublist_append_left as [b])
    · exact ih.append (List.Sublist.refl [b])

/-- All elements are kept exactly if no two of them agree. -/
theorem eraseDupsBy_eq_self_iff :
    as.eraseDupsBy r = as ↔ as.Pairwise fun a b => r b a = false := by
  induction as using List.reverseRecOn with
  | nil => exact iff_of_true rfl .nil
  | append_singleton as b ih =>
    rw [eraseDupsBy_concat, List.pairwise_append, ← ih]
    simp only [List.pairwise_singleton, true_and, List.mem_singleton, forall_eq]
    by_cases hany : (as.eraseDupsBy r).any (r b) = true
    · rw [if_pos hany]
      refine iff_of_false (fun h => ?_) ?_
      · have hle : (as.eraseDupsBy r).length ≤ as.length := eraseDupsBy_sublist.length_le
        rw [h, List.length_append, List.length_singleton] at hle
        omega
      · rintro ⟨hself, hnone⟩
        obtain ⟨a, ha, hr⟩ := List.any_eq_true.1 hany
        rw [hself] at ha
        exact Bool.false_ne_true ((hnone a ha).symm.trans hr)
    · rw [if_neg hany, List.append_left_inj]
      refine ⟨fun hself => ⟨hself, fun a ha => ?_⟩, And.left⟩
      rw [hself, List.any_eq_true] at hany
      exact Bool.eq_false_iff.2 fun hr => hany ⟨a, ha, hr⟩

end Kept

variable {α : Type} [BEq α] [LawfulBEq α]

theorem eraseDups_concat (as : List α) (b : α) :
    (as ++ [b]).eraseDups = as.eraseDups ++ if b ∈ as then [] else [b] := by
  rw [List.eraseDups_append, List.removeAll]
  by_cases hb : b ∈ as <;> simp [hb, List.eraseDups_cons]

/-- Elements are left in the order of their first places. -/
theorem pairwise_eraseDups (as : List α) :
    as.eraseDups.Pairwise fun a b => as.idxOf a < as.idxOf b := by
  induction as using List.reverseRecOn with
  | nil => exact .nil
  | append_singleton as b ih =>
    have hbefore : as.eraseDups.Pairwise fun x y => (as ++ [b]).idxOf x < (as ++ [b]).idxOf y := by
      refine ih.imp_of_mem fun hx hy hlt => ?_
      rwa [List.idxOf_append_of_mem (List.mem_eraseDups.1 hx),
        List.idxOf_append_of_mem (List.mem_eraseDups.1 hy)]
    rw [eraseDups_concat]
    split
    · rwa [List.append_nil]
    · next hb =>
      refine List.pairwise_append.2 ⟨hbefore, List.pairwise_singleton _ _, fun x hx y hy => ?_⟩
      obtain rfl := List.mem_singleton.1 hy
      have hplace : x ∈ as := List.mem_eraseDups.1 hx
      rw [List.idxOf_append_of_mem hplace, List.idxOf_append_of_notMem hb]
      exact Nat.lt_add_right _ (List.idxOf_lt_length_iff.2 hplace)

theorem nodup_eraseDups (as : List α) : as.eraseDups.Nodup := by
  refine (pairwise_eraseDups as).imp fun hlt he => ?_
  rw [he] at hlt
  exact Nat.lt_irrefl _ hlt

end GraphSync
