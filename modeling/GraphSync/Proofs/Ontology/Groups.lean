import Mathlib.Data.List.Induction
import GraphSync.Proofs.Ontology.Merged

/-! Merging as grouping: the records of an identity are put together in order, field by field. -/
namespace GraphSync.Merge

/-- The identities of records as they are printed, in the order of their first appearance. -/
def keys (idField : String) (records : List Record) : List String :=
  (records.filterMap (identity? idField)).eraseDups

/-- The records of an identity. -/
def group (idField key : String) (records : List Record) : List Record :=
  records.filter fun r => identity? idField r = some key

/-- The first record of a group, filled from the others in order. -/
def combine : List Record → Record
  | [] => .empty
  | r :: rest => rest.foldl fill r

variable {idField key field : String} {r other m : Record} {records : List Record}

/-! What filling does to a single field. -/

theorem isSome_present_iff :
    (r.present field).isSome = true ↔ ∃ v, r.find? field = some v ∧ v.isNull = false :=
  Option.isSome_iff_exists.trans (exists_congr fun _ => Json.present_eq_some_iff)

/-- A field that is there has its value, which is null if nothing is present. -/
theorem find?_of_contains (h : r.contains field = true) :
    r.find? field = some ((r.present field).getD .null) := by
  obtain ⟨v, hv⟩ := SortedMap.contains_eq_true_iff.1 h
  rw [Record.present, hv]
  cases v <;> rfl

theorem contains_of_present (h : (r.present field).isSome = true) : r.contains field = true := by
  obtain ⟨v, hv, -⟩ := isSome_present_iff.1 h
  exact SortedMap.contains_eq_true_iff.2 ⟨v, hv⟩

theorem contains_fillField (b : String × Json) : (fillField r b).contains field = true ↔
    r.contains field = true ∨ (field = b.1 ∧ b.2.isNull = false) := by
  rw [fillField]
  by_cases hkeep : (b.2.isNull || (r.present b.1).isSome) = true
  · rw [if_pos hkeep]
    refine (or_iff_left_of_imp ?_).symm
    rintro ⟨rfl, hnull⟩
    rw [hnull, Bool.false_or] at hkeep
    exact contains_of_present hkeep
  · rw [if_neg hkeep, SortedMap.contains_insert, Bool.or_eq_true, decide_eq_true_eq, or_comm]
    have hnull : b.2.isNull = false := by
      simp only [Bool.or_eq_true, not_or, Bool.not_eq_true] at hkeep
      exact hkeep.1
    simp only [hnull, and_true]

theorem contains_foldl_fillField (xs : List (String × Json)) (r : Record) :
    (xs.foldl fillField r).contains field = true ↔
      r.contains field = true ∨ ∃ v, (field, v) ∈ xs ∧ v.isNull = false := by
  induction xs generalizing r with
  | nil => simp
  | cons b xs ih =>
    rw [List.foldl_cons, ih, contains_fillField, or_assoc]
    refine or_congr_right ⟨?_, ?_⟩
    · rintro (⟨rfl, hnull⟩ | ⟨v, hv, hnull⟩)
      · exact ⟨b.2, List.mem_cons_self, hnull⟩
      · exact ⟨v, List.mem_cons_of_mem _ hv, hnull⟩
    · rintro ⟨v, hv, hnull⟩
      rcases List.mem_cons.1 hv with rfl | hv
      · exact .inl ⟨rfl, hnull⟩
      · exact .inr ⟨v, hv, hnull⟩

/-- Filling adds the fields that the other record has a value of. -/
theorem contains_fill : (fill r other).contains field = true ↔
    r.contains field = true ∨ (other.present field).isSome = true := by
  rw [fill, contains_foldl_fillField, isSome_present_iff]
  simp only [SortedMap.find?_eq_some_iff]

/-! What is left of a whole group. -/

theorem present_foldl_fill (rest : List Record) (r : Record) : (rest.foldl fill r).present field =
    (r.present field).or (rest.findSome? (·.present field)) := by
  induction rest generalizing r with
  | nil => exact (Option.or_none).symm
  | cons other rest ih =>
    rw [List.foldl_cons, ih, present_fill, Option.or_assoc, List.findSome?_cons]
    cases other.present field <;> rfl

theorem contains_foldl_fill (rest : List Record) (r : Record) :
    (rest.foldl fill r).contains field = true ↔
      r.contains field = true ∨ ∃ other ∈ rest, (other.present field).isSome = true := by
  induction rest generalizing r with
  | nil => simp
  | cons other rest ih =>
    rw [List.foldl_cons, ih, contains_fill, or_assoc]
    simp only [List.mem_cons, exists_eq_or_imp]

/-- The first value of a field counts. -/
theorem present_combine (rs : List Record) :
    (combine rs).present field = rs.findSome? (·.present field) := by
  cases rs with
  | nil => rfl
  | cons r rest =>
    rw [combine, present_foldl_fill, List.findSome?_cons]
    cases r.present field <;> rfl

/-- Null counts as a value only in the first record. -/
theorem contains_combine (rs : List Record) : (combine rs).contains field = true ↔
    (∃ r, rs.head? = some r ∧ r.contains field = true) ∨
      ∃ r ∈ rs, (r.present field).isSome = true := by
  cases rs with
  | nil =>
    have hempty : ¬ (combine []).contains field = true := by
      intro h
      obtain ⟨v, hv⟩ := SortedMap.contains_eq_true_iff.1 h
      cases hv
    simp [hempty]
  | cons r rest =>
    rw [combine, contains_foldl_fill]
    simp only [List.head?_cons, Option.some_inj, exists_eq_left', List.mem_cons, exists_eq_or_imp]
    rw [← or_assoc, or_iff_left_of_imp contains_of_present]

theorem combine_append (hne : records ≠ []) :
    combine (records ++ [r]) = fill (combine records) r := by
  cases records with
  | nil => exact absurd rfl hne
  | cons first rest =>
    rw [List.cons_append, combine, combine, List.foldl_append]
    rfl

/-! Keys and groups as records come in. -/

theorem mem_keys : key ∈ keys idField records ↔ ∃ r ∈ records, identity? idField r = some key := by
  rw [keys, List.mem_eraseDups, List.mem_filterMap]

theorem group_ne_nil (h : key ∈ keys idField records) : group idField key records ≠ [] := by
  obtain ⟨r, hr, hkey⟩ := mem_keys.1 h
  exact List.ne_nil_of_mem (List.mem_filter.2 ⟨hr, decide_eq_true hkey⟩)

theorem group_of_not_mem (h : key ∉ keys idField records) : group idField key records = [] := by
  refine List.filter_eq_nil_iff.2 fun r hr hkey => h ?_
  exact mem_keys.2 ⟨r, hr, of_decide_eq_true hkey⟩

theorem keys_append_of_none (hr : identity? idField r = none) :
    keys idField (records ++ [r]) = keys idField records := by
  rw [keys, List.filterMap_append, List.filterMap_cons_none hr, List.filterMap_nil,
    List.append_nil, ← keys]

theorem keys_append_of_some (hr : identity? idField r = some key) :
    keys idField (records ++ [r]) =
      keys idField records ++ if key ∈ keys idField records then [] else [key] := by
  have hseen : ((records.filterMap (identity? idField)).elem key = true) ↔
      key ∈ keys idField records := List.elem_iff.trans List.mem_eraseDups.symm
  rw [keys, List.filterMap_append, List.filterMap_cons_some hr, List.filterMap_nil,
    List.eraseDups_append, ← keys, List.removeAll]
  by_cases h : key ∈ keys idField records
  · rw [if_pos h, List.filter_cons_of_neg (by simp only [hseen.2 h]; decide)]
    rfl
  · have hnew := Bool.not_eq_true _ ▸ mt hseen.1 h
    rw [if_neg h, List.filter_cons_of_pos (by simp only [hnew]; decide)]
    rfl

theorem group_append : group idField key (records ++ [r]) =
    group idField key records ++ if identity? idField r = some key then [r] else [] := by
  rw [group, List.filter_append, ← group]
  by_cases hr : identity? idField r = some key <;> simp [hr]

/-- No identity is listed twice. -/
theorem nodup_keys (idField : String) (records : List Record) : (keys idField records).Nodup := by
  induction records using List.reverseRecOn with
  | nil => exact .nil
  | append_singleton records r ih =>
    cases hr : identity? idField r with
    | none => rwa [keys_append_of_none hr]
    | some key =>
      rw [keys_append_of_some hr]
      by_cases hkey : key ∈ keys idField records
      · rwa [if_pos hkey, List.append_nil]
      · rw [if_neg hkey]
        refine List.nodup_append.2 ⟨ih, List.nodup_singleton _, fun a ha b hb => ?_⟩
        rintro rfl
        exact hkey (List.mem_singleton.1 hb ▸ ha)

/-- What is combined of a group has the identity of the group. -/
theorem identity?_combine (h : key ∈ keys idField records) :
    identity? idField (combine (group idField key records)) = some key := by
  cases hgroup : group idField key records with
  | nil => exact absurd hgroup (group_ne_nil h)
  | cons r rest =>
    have hr : r ∈ group idField key records := hgroup ▸ List.mem_cons_self
    have hkey : identity? idField r = some key := of_decide_eq_true (List.mem_filter.1 hr).2
    obtain ⟨v, hv, -⟩ := Option.map_eq_some_iff.1 hkey
    rw [← hkey, identity?, identity?, combine, present_foldl_fill, hv, Option.some_or]

/-! Merging is grouping. -/

theorem absorb_map {ks : List String} {f : String → Record} (hd : ks.Nodup)
    (hf : ∀ k ∈ ks, identity? idField (f k) = some k) (h : key ∈ ks) :
    absorb idField key r (ks.map f) = ks.map fun k => if k = key then fill (f k) r else f k := by
  induction ks with
  | nil => cases h
  | cons k ks ih =>
    obtain ⟨hk, hks⟩ := List.forall_mem_cons.1 hf
    obtain ⟨hnew, hd⟩ := List.nodup_cons.1 hd
    rw [List.map_cons, List.map_cons, absorb]
    by_cases he : k = key
    · have hrest : ∀ j ∈ ks, f j = if j = key then fill (f j) r else f j := by
        intro j hj
        rw [if_neg]
        rintro rfl
        exact hnew (he ▸ hj)
      rw [if_pos (he ▸ hk), if_pos he, List.map_congr_left hrest]
    · have hkey : identity? idField (f k) ≠ some key := fun hid =>
        he (Option.some.inj (hk.symm.trans hid))
      rw [if_neg hkey, if_neg he, ih hd hks ((List.mem_cons.1 h).resolve_left (Ne.symm he))]

theorem absorb_map_of_not_mem {ks : List String} {f : String → Record}
    (hf : ∀ k ∈ ks, identity? idField (f k) = some k) (h : key ∉ ks) :
    absorb idField key r (ks.map f) = ks.map f ++ [r] := by
  rcases absorb_cases idField key r (ks.map f) with
    ⟨before, m, after, hsplit, hm, -⟩ | ⟨-, habsorb⟩
  · have hmem : m ∈ ks.map f := hsplit ▸ List.mem_append_right _ List.mem_cons_self
    obtain ⟨k, hk, rfl⟩ := List.mem_map.1 hmem
    exact absurd (Option.some.inj ((hf k hk).symm.trans hm) ▸ hk) h
  · exact habsorb

/-- What is merged is one record for each identity, combined of its group. -/
theorem merge_eq (idField : String) (records : List Record) : merge idField records =
    (keys idField records).map fun key => combine (group idField key records) := by
  induction records using List.reverseRecOn with
  | nil => rfl
  | append_singleton records r ih =>
    have hlast : merge idField (records ++ [r]) = step idField (merge idField records) r := by
      rw [merge, List.foldl_append]
      rfl
    have hf : ∀ k ∈ keys idField records,
        identity? idField (combine (group idField k records)) = some k := fun k hk =>
      identity?_combine hk
    rw [hlast, ih]
    cases hr : identity? idField r with
    | none =>
      have hstep : ∀ merged, step idField merged r = merged := fun merged => by rw [step, hr]
      have hgroup : ∀ k, group idField k (records ++ [r]) = group idField k records := by
        intro k
        rw [group_append, hr, if_neg (Option.some_ne_none k).symm, List.append_nil]
      simp only [hstep, keys_append_of_none hr, hgroup]
    | some key =>
      have hstep : ∀ merged, step idField merged r = absorb idField key r merged := fun merged => by
        rw [step, hr]
      have hown : group idField key (records ++ [r]) = group idField key records ++ [r] := by
        rw [group_append, if_pos hr]
      have hothers : ∀ k, k ≠ key →
          group idField k (records ++ [r]) = group idField k records := by
        intro k hk
        rw [group_append, if_neg (fun hkey => hk (Option.some.inj (hkey.symm.trans hr))),
          List.append_nil]
      rw [hstep, keys_append_of_some hr]
      by_cases hkey : key ∈ keys idField records
      · rw [if_pos hkey, List.append_nil, absorb_map (nodup_keys idField records) hf hkey]
        refine List.map_congr_left fun k _ => ?_
        by_cases hk : k = key
        · rw [if_pos hk, hk, hown, combine_append (group_ne_nil hkey)]
        · rw [if_neg hk, hothers k hk]
      · have hkeep : ∀ k ∈ keys idField records, combine (group idField k records) =
            combine (group idField k (records ++ [r])) := by
          intro k hk
          have hne : k ≠ key := fun he => hkey (he ▸ hk)
          rw [hothers k hne]
        rw [if_neg hkey, absorb_map_of_not_mem hf hkey, List.map_append, List.map_congr_left hkeep,
          List.map_singleton, hown, group_of_not_mem hkey]
        rfl

/-- Records without an identity contribute nothing. -/
theorem merge_filter (idField : String) (records : List Record) :
    merge idField (records.filter fun r => (r.present idField).isSome) = merge idField records := by
  have hstep : ∀ merged r, step idField merged r =
      if (r.present idField).isSome = true then step idField merged r else merged := by
    intro merged r
    cases hr : r.present idField with
    | none =>
      rw [step, identity?, hr]
      rfl
    | some v => rfl
  rw [merge, List.foldl_filter, merge]
  exact List.foldl_ext _ _ _ fun merged r _ => (hstep merged r).symm

/-- Merging leaves a record for each printed identity, in the order of first appearance. It has the
fields of the first record of its group and those that some record of the group has a value of, with
the first such value, or null. -/
theorem merge_exact (idField : String) (records : List Record) :
    (merge idField records).map (identity? idField) = (keys idField records).map some ∧
    (∀ m ∈ merge idField records, ∀ key, identity? idField m = some key → ∀ field,
      (m.contains field = true ↔
        (∃ r, (group idField key records).head? = some r ∧ r.contains field = true) ∨
          ∃ r ∈ group idField key records, (r.present field).isSome = true) ∧
      (m.contains field = true → m.find? field =
        some (((group idField key records).findSome? (·.present field)).getD .null))) ∧
    merge idField (records.filter fun r => (r.present idField).isSome) = merge idField records := by
  refine ⟨?_, fun m hm key hkey field => ?_, merge_filter idField records⟩
  · rw [merge_eq, List.map_map]
    exact List.map_congr_left fun key hkey => identity?_combine hkey
  · rw [merge_eq] at hm
    obtain ⟨k, hk, rfl⟩ := List.mem_map.1 hm
    obtain rfl : k = key := Option.some.inj ((identity?_combine hk).symm.trans hkey)
    refine ⟨contains_combine _, fun hfield => ?_⟩
    rw [find?_of_contains hfield, present_combine]

end GraphSync.Merge
