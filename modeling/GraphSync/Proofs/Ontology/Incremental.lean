import GraphSync.Proofs.FirstOccurrence
import GraphSync.Proofs.Ontology.Groups

/-! Merging in parts: what was merged before stands for the records that it was merged from, however
these are cut and whatever is merged first. -/
namespace GraphSync.Merge

/-- Records one after the other, where any part of them may be merged by itself beforehand. -/
inductive Grouping where
  | records (rs : List Record)
  | join (first second : Grouping)
  | merged (part : Grouping)

namespace Grouping

/-- The records as they come in. -/
def all : Grouping → List Record
  | records rs => rs
  | join first second => first.all ++ second.all
  | merged part => part.all

/-- What is left of them once the parts are merged. -/
def left (idField : String) : Grouping → List Record
  | records rs => rs
  | join first second => first.left idField ++ second.left idField
  | merged part => merge idField (part.left idField)

end Grouping

variable {idField key : String} {r other : Record} {xs ys : List Record}

theorem eq_of_present_of_contains (hp : ∀ field, r.present field = other.present field)
    (hc : ∀ field, r.contains field = true ↔ other.contains field = true) : r = other := by
  refine SortedMap.find?_ext fun field => ?_
  by_cases hr : r.contains field = true
  · rw [find?_of_contains hr, find?_of_contains ((hc field).1 hr), hp]
  · have hother := mt (hc field).2 hr
    rw [SortedMap.contains, Option.isSome_iff_ne_none, not_not] at hr hother
    rw [hr, hother]

/-- The end of a group may be combined beforehand: a null that is kept there counts for nothing in
what it is combined with. -/
theorem combine_append_combine (xs ys : List Record) :
    combine (xs ++ [combine ys]) = combine (xs ++ ys) := by
  cases xs with
  | nil => rfl
  | cons first rest =>
    refine eq_of_present_of_contains (fun field => ?_) fun field => ?_
    · simp only [present_combine, List.findSome?_append, List.findSome?_cons, List.findSome?_nil]
      cases ys.findSome? (·.present field) <;> rfl
    · have hend : ((combine ys).present field).isSome = true ↔
          ∃ r ∈ ys, (r.present field).isSome = true := by
        rw [present_combine, List.isSome_findSome?, List.any_eq_true]
      simp only [contains_combine, List.cons_append, List.head?_cons, List.mem_cons,
        List.mem_append, List.not_mem_nil, or_false, or_and_right, exists_or, exists_eq_left, hend]

/-! Keys and groups of records that end in merged ones. -/

/-- What occurs twice later on may be left out before. -/
theorem eraseDups_append_eraseDups (as bs : List String) :
    (as ++ bs.eraseDups).eraseDups = (as ++ bs).eraseDups := by
  induction bs using List.reverseRecOn with
  | nil => rfl
  | append_singleton bs b ih =>
    rw [eraseDups_concat, ← List.append_assoc, ← List.append_assoc, eraseDups_concat (as ++ bs),
      ← ih]
    by_cases hb : b ∈ bs
    · simp only [hb, List.mem_append, or_true, if_true, List.append_nil]
    · simp only [hb, if_false, eraseDups_concat, List.mem_append, List.mem_eraseDups]

theorem filterMap_identity?_merge (idField : String) (ys : List Record) :
    (merge idField ys).filterMap (identity? idField) = keys idField ys := by
  have hkeys : ∀ k ∈ keys idField ys,
      identity? idField (combine (group idField k ys)) = some k := fun k hk => identity?_combine hk
  rw [merge_eq, List.filterMap_map]
  exact (List.filterMap_congr hkeys).trans List.filterMap_some

theorem keys_append_merge (xs ys : List Record) :
    keys idField (xs ++ merge idField ys) = keys idField (xs ++ ys) := by
  rw [keys, List.filterMap_append, filterMap_identity?_merge, keys, eraseDups_append_eraseDups,
    ← List.filterMap_append, ← keys]

/-- Of an identity there is one merged record, combined of its group. -/
theorem group_merge (h : key ∈ keys idField ys) :
    group idField key (merge idField ys) = [combine (group idField key ys)] := by
  have hown : ∀ k ∈ keys idField ys,
      decide (identity? idField (combine (group idField k ys)) = some key) = (k == key) := by
    intro k hk
    simp only [identity?_combine hk, Option.some_inj]
    rfl
  rw [group, merge_eq, List.filter_map, Function.comp_def, List.filter_congr hown, List.filter_beq,
    List.count_eq_one_of_mem (nodup_keys idField ys) h]
  rfl

theorem combine_group_append_merge (key : String) (xs ys : List Record) :
    combine (group idField key (xs ++ merge idField ys)) =
      combine (group idField key (xs ++ ys)) := by
  have happend : ∀ zs, group idField key (xs ++ zs) =
      group idField key xs ++ group idField key zs := fun _ => List.filter_append ..
  rw [happend, happend]
  by_cases h : key ∈ keys idField ys
  · rw [group_merge h, combine_append_combine]
  · have hmerged : key ∉ keys idField (merge idField ys) := by
      rwa [← List.nil_append (merge idField ys), keys_append_merge]
    rw [group_of_not_mem h, group_of_not_mem hmerged]

theorem merge_append_merge (idField : String) (xs ys : List Record) :
    merge idField (xs ++ merge idField ys) = merge idField (xs ++ ys) := by
  rw [merge_eq idField (xs ++ merge idField ys), merge_eq idField (xs ++ ys), keys_append_merge]
  exact List.map_congr_left fun key _ => combine_group_append_merge key xs ys

/-- Nothing is left to merge of what is merged. -/
theorem merge_merge (idField : String) (rs : List Record) :
    merge idField (merge idField rs) = merge idField rs := merge_append_merge idField [] rs

theorem merge_merge_append (idField : String) (xs ys : List Record) :
    merge idField (merge idField xs ++ ys) = merge idField (xs ++ ys) := by
  have hfold : ∀ zs, merge idField (zs ++ ys) = ys.foldl (step idField) (merge idField zs) :=
    fun _ => List.foldl_append
  rw [hfold, hfold, merge_merge]

/-- Two parts may each be merged before they are put together. -/
theorem merge_parts (idField : String) (xs ys : List Record) :
    merge idField (merge idField xs ++ merge idField ys) = merge idField (xs ++ ys) := by
  rw [merge_merge_append, merge_append_merge]

theorem merge_flatMap_merge (idField : String) (parts : List (List Record)) :
    merge idField (parts.flatMap (merge idField)) = merge idField parts.flatten := by
  induction parts with
  | nil => rfl
  | cons first rest ih =>
    rw [List.flatMap_cons, List.flatten_cons, merge_merge_append, ← merge_append_merge, ih,
      merge_append_merge]

theorem merge_left (idField : String) (grouping : Grouping) :
    merge idField (grouping.left idField) = merge idField grouping.all := by
  induction grouping with
  | records rs => rfl
  | join first second hfirst hsecond =>
    rw [Grouping.left, Grouping.all, ← merge_parts, hfirst, hsecond, merge_parts]
  | merged part ih => rw [Grouping.left, Grouping.all, merge_merge, ih]

/-- Merging can be done in parts: in two, in one for each module, or with parts within parts, the
order being kept. Merging what is merged changes nothing. -/
theorem merge_incremental (idField : String) :
    (∀ xs ys, merge idField (xs ++ ys) =
      merge idField (merge idField xs ++ merge idField ys)) ∧
    (∀ rs, merge idField (merge idField rs) = merge idField rs) ∧
    (∀ parts : List (List Record),
      merge idField parts.flatten = merge idField (parts.flatMap (merge idField))) ∧
    ∀ grouping : Grouping,
      merge idField (grouping.left idField) = merge idField grouping.all :=
  ⟨fun xs ys => (merge_parts idField xs ys).symm, merge_merge idField,
    fun parts => (merge_flatMap_merge idField parts).symm, merge_left idField⟩

end GraphSync.Merge
