/-! Finite maps kept as bindings in ascending key order, so equal maps are equal lists. -/
namespace GraphSync

/-- Bindings of distinct keys, in ascending order of key. -/
structure SortedMap (κ : Type) (α : Type) [LT κ] where
  entries : List (κ × α)
  ascending : entries.Pairwise fun a b => a.1 < b.1

namespace SortedMap

variable {κ α β : Type} [LE κ] [LT κ] [Std.IsLinearOrder κ] [Std.LawfulOrderLT κ]
  [DecidableLT κ] [DecidableEq κ]

omit [LE κ] [Std.IsLinearOrder κ] [Std.LawfulOrderLT κ] [DecidableLT κ] [DecidableEq κ] in
theorem ext {m n : SortedMap κ α} (h : m.entries = n.entries) : m = n := by
  cases m
  cases n
  simp_all

instance [DecidableEq α] : DecidableEq (SortedMap κ α) := fun m n =>
  if h : m.entries = n.entries then .isTrue (ext h)
  else .isFalse fun he => h (congrArg entries he)

def empty : SortedMap κ α := ⟨[], .nil⟩

instance : Inhabited (SortedMap κ α) := ⟨empty⟩

/-- The value of the first binding of a key. -/
def seek (k : κ) : List (κ × α) → Option α
  | [] => none
  | (l, w) :: rest => if k = l then some w else seek k rest

def find? (m : SortedMap κ α) (k : κ) : Option α := seek k m.entries

def contains (m : SortedMap κ α) (k : κ) : Bool := (m.find? k).isSome

def keys (m : SortedMap κ α) : List κ := m.entries.map (·.1)

def values (m : SortedMap κ α) : List α := m.entries.map (·.2)

def size (m : SortedMap κ α) : Nat := m.entries.length

def isEmpty (m : SortedMap κ α) : Bool := m.entries.isEmpty

/-- Puts a binding where its key belongs, in place of the key's earlier binding. -/
def place (k : κ) (v : α) : List (κ × α) → List (κ × α)
  | [] => [(k, v)]
  | (l, w) :: rest =>
    if k < l then (k, v) :: (l, w) :: rest
    else if k = l then (k, v) :: rest
    else (l, w) :: place k v rest

omit [LE κ] [Std.IsLinearOrder κ] [Std.LawfulOrderLT κ] in
theorem mem_place {k : κ} {v : α} {b : κ × α} {xs : List (κ × α)} (h : b ∈ place k v xs) :
    b = (k, v) ∨ b ∈ xs := by
  induction xs with
  | nil => simp_all [place]
  | cons x rest ih =>
    obtain ⟨l, w⟩ := x
    simp only [place] at h
    split at h
    · simpa using h
    · split at h
      · rcases List.mem_cons.1 h with h | h
        · exact .inl h
        · exact .inr (List.mem_cons_of_mem _ h)
      · rcases List.mem_cons.1 h with h | h
        · exact .inr (by simp [h])
        · exact (ih h).imp id (List.mem_cons_of_mem _)

theorem pairwise_place (k : κ) (v : α) {xs : List (κ × α)}
    (h : xs.Pairwise fun a b => a.1 < b.1) : (place k v xs).Pairwise fun a b => a.1 < b.1 := by
  induction xs with
  | nil => simp [place]
  | cons x rest ih =>
    obtain ⟨l, w⟩ := x
    obtain ⟨hl, hr⟩ := List.pairwise_cons.1 h
    simp only [place]
    split
    · next hk =>
      refine List.pairwise_cons.2 ⟨fun b hb => ?_, h⟩
      rcases List.mem_cons.1 hb with rfl | hb
      · exact hk
      · exact Std.lt_trans hk (hl b hb)
    · next hk =>
      split
      · next he => exact List.pairwise_cons.2 ⟨fun b hb => he ▸ hl b hb, hr⟩
      · next he =>
        refine List.pairwise_cons.2 ⟨fun b hb => ?_, ih hr⟩
        rcases mem_place hb with rfl | hb
        · rcases Std.lt_trichotomy k l with h | h | h
          · exact absurd h hk
          · exact absurd h he
          · exact h
        · exact hl b hb

/-- Binds a key, replacing what it was bound to. -/
def insert (m : SortedMap κ α) (k : κ) (v : α) : SortedMap κ α :=
  ⟨place k v m.entries, pairwise_place k v m.ascending⟩

/-- Keeps the bindings that satisfy a condition. -/
def filter (p : κ → α → Bool) (m : SortedMap κ α) : SortedMap κ α :=
  ⟨m.entries.filter fun b => p b.1 b.2, m.ascending.filter _⟩

def erase (m : SortedMap κ α) (k : κ) : SortedMap κ α := m.filter fun l _ => l ≠ k

/-- Later bindings of a key replace earlier ones. -/
def insertAll (m : SortedMap κ α) (bindings : List (κ × α)) : SortedMap κ α :=
  bindings.foldl (fun m b => m.insert b.1 b.2) m

def ofList (bindings : List (κ × α)) : SortedMap κ α := empty.insertAll bindings

/-- Every binding of `other`, and those of `m` for the remaining keys. -/
def merge (m other : SortedMap κ α) : SortedMap κ α := m.insertAll other.entries

omit [LE κ] [Std.IsLinearOrder κ] [Std.LawfulOrderLT κ] [DecidableLT κ] in
@[simp] theorem find?_empty (k : κ) : (empty : SortedMap κ α).find? k = none := rfl

omit [LE κ] [Std.IsLinearOrder κ] [Std.LawfulOrderLT κ] in
theorem seek_place (k l : κ) (v : α) (xs : List (κ × α)) :
    seek l (place k v xs) = if l = k then some v else seek l xs := by
  induction xs with
  | nil => simp [place, seek]
  | cons x rest ih =>
    obtain ⟨j, w⟩ := x
    simp only [place]
    split
    · simp [seek]
    · split
      · next he => by_cases h : l = k <;> simp [seek, h, ← he]
      · next he =>
        by_cases hj : l = j
        · simp [seek, hj, Ne.symm he]
        · simp [seek, hj, ih]

theorem find?_insert (m : SortedMap κ α) (k l : κ) (v : α) :
    (m.insert k v).find? l = if l = k then some v else m.find? l :=
  seek_place k l v m.entries

omit [LE κ] [LT κ] [Std.IsLinearOrder κ] [Std.LawfulOrderLT κ] [DecidableLT κ] in
theorem seek_filter_ne (k l : κ) (xs : List (κ × α)) :
    seek l (xs.filter fun b => decide (b.1 ≠ k)) = if l = k then none else seek l xs := by
  induction xs with
  | nil => simp [seek]
  | cons x rest ih =>
    obtain ⟨j, w⟩ := x
    by_cases hj : j = k
    · rw [List.filter_cons_of_neg (by simpa using hj), ih]
      by_cases hl : l = k <;> simp [seek, hl, hj]
    · rw [List.filter_cons_of_pos (by simpa using hj)]
      by_cases hl : l = j
      · simp [seek, hl, hj]
      · simp only [seek, hl, if_false]
        exact ih

omit [LE κ] [Std.IsLinearOrder κ] [Std.LawfulOrderLT κ] [DecidableLT κ] in
theorem find?_erase (m : SortedMap κ α) (k l : κ) :
    (m.erase k).find? l = if l = k then none else m.find? l :=
  seek_filter_ne k l m.entries

omit [Std.IsLinearOrder κ] [DecidableLT κ] in
theorem seek_eq_some_iff {k : κ} {v : α} {xs : List (κ × α)}
    (h : xs.Pairwise fun a b => a.1 < b.1) : seek k xs = some v ↔ (k, v) ∈ xs := by
  induction xs with
  | nil => simp [seek]
  | cons x rest ih =>
    obtain ⟨l, w⟩ := x
    obtain ⟨hl, hr⟩ := List.pairwise_cons.1 h
    by_cases hk : k = l
    · subst hk
      have hn : (k, v) ∉ rest := fun hm => absurd (hl _ hm) Std.lt_irrefl
      simp [seek, hn, eq_comm]
    · simp [seek, hk, ih hr]

omit [Std.IsLinearOrder κ] [DecidableLT κ] in
theorem find?_eq_some_iff {m : SortedMap κ α} {k : κ} {v : α} :
    m.find? k = some v ↔ (k, v) ∈ m.entries := seek_eq_some_iff m.ascending

omit [Std.IsLinearOrder κ] [DecidableLT κ] in
/-- Maps are equal if look-up tells no difference. -/
theorem find?_ext {m n : SortedMap κ α} (h : ∀ k, m.find? k = n.find? k) : m = n := by
  have hm : ∀ b : κ × α, b ∈ m.entries ↔ b ∈ n.entries := fun b => by
    rw [← find?_eq_some_iff, ← find?_eq_some_iff, h]
  have nodup : ∀ l : SortedMap κ α, l.entries.Nodup := fun l =>
    l.ascending.imp fun hb => by
      rintro rfl
      exact Std.lt_irrefl hb
  have hp := (List.perm_ext_iff_of_nodup (nodup m) (nodup n)).2 hm
  exact ext (hp.eq_of_pairwise (fun a b _ _ hab hba => absurd hba (Std.not_gt_of_lt hab))
    m.ascending n.ascending)

/-- What is inserted last counts. -/
theorem insert_insert (m : SortedMap κ α) (k : κ) (v w : α) :
    (m.insert k v).insert k w = m.insert k w := by
  refine find?_ext fun l => ?_
  simp only [find?_insert]
  split <;> rfl

omit [Std.IsLinearOrder κ] in
theorem place_of_lt {k : κ} {v : α} {xs : List (κ × α)} (h : ∀ b ∈ xs, b.1 < k) :
    place k v xs = xs ++ [(k, v)] := by
  induction xs with
  | nil => rfl
  | cons x rest ih =>
    obtain ⟨hx, hrest⟩ := List.forall_mem_cons.1 h
    have hne : k ≠ x.1 := fun he => Std.lt_irrefl (he ▸ hx)
    simp [place, Std.not_gt_of_lt hx, hne, ih hrest]

/-- A key above all others is bound last. -/
theorem entries_insert_of_lt {m : SortedMap κ α} {k : κ} {v : α}
    (h : ∀ l w, m.find? l = some w → l < k) : (m.insert k v).entries = m.entries ++ [(k, v)] :=
  place_of_lt fun b hb => h b.1 b.2 (find?_eq_some_iff.2 hb)

omit [Std.IsLinearOrder κ] in
theorem place_of_mem {k : κ} {v w : α} {xs : List (κ × α)}
    (h : xs.Pairwise fun a b => a.1 < b.1) (hk : (k, w) ∈ xs) :
    place k v xs = xs.map fun b => if b.1 = k then (k, v) else b := by
  induction xs with
  | nil => cases hk
  | cons x rest ih =>
    obtain ⟨hx, hrest⟩ := List.pairwise_cons.1 h
    rcases List.mem_cons.1 hk with rfl | hk
    · have hkeep : ∀ b ∈ rest, (if b.1 = k then (k, v) else b) = b := by
        intro b hb
        have hlt : k < b.1 := hx b hb
        exact if_neg fun he => Std.lt_irrefl (he ▸ hlt)
      simp [place, Std.lt_irrefl, List.map_congr_left hkeep]
    · have hlt : x.1 < k := hx _ hk
      have hne : x.1 ≠ k := fun he => Std.lt_irrefl (he ▸ hlt)
      simp [place, Std.not_gt_of_lt hlt, hne, hne.symm, ih hrest hk]

/-- A key that is bound keeps its place. -/
theorem entries_insert_of_find? {m : SortedMap κ α} {k : κ} {v w : α} (h : m.find? k = some w) :
    (m.insert k v).entries = m.entries.map fun b => if b.1 = k then (k, v) else b :=
  place_of_mem m.ascending (find?_eq_some_iff.1 h)

omit [Std.IsLinearOrder κ] [DecidableLT κ] [DecidableEq κ] in
theorem nodup_keys (m : SortedMap κ α) : m.keys.Nodup := by
  refine List.pairwise_map.2 (m.ascending.imp fun hb he => ?_)
  rw [he] at hb
  exact Std.lt_irrefl hb

theorem find?_insertAll {xs : List (κ × α)} (h : xs.Pairwise fun a b => a.1 < b.1)
    (m : SortedMap κ α) (k : κ) : (m.insertAll xs).find? k = (seek k xs).or (m.find? k) := by
  induction xs generalizing m with
  | nil => rfl
  | cons x rest ih =>
    obtain ⟨l, w⟩ := x
    obtain ⟨hl, hr⟩ := List.pairwise_cons.1 h
    have hstep : m.insertAll ((l, w) :: rest) = (m.insert l w).insertAll rest := rfl
    rw [hstep, ih hr, find?_insert]
    by_cases hk : k = l
    · subst hk
      have hnone : seek k rest = none := by
        refine Option.eq_none_iff_forall_ne_some.2 fun v hv => ?_
        exact absurd (hl (k, v) ((seek_eq_some_iff hr).1 hv)) Std.lt_irrefl
      simp [seek, hnone]
    · simp [seek, hk]

theorem ofList_entries (m : SortedMap κ α) : ofList m.entries = m :=
  find?_ext fun k => by
    rw [ofList, find?_insertAll m.ascending, find?_empty, Option.or_none]
    rfl

omit [Std.IsLinearOrder κ] [DecidableLT κ] in
theorem find?_filter (p : κ → α → Bool) (m : SortedMap κ α) (k : κ) :
    (m.filter p).find? k = (m.find? k).filter (p k) := by
  refine Option.ext fun v => ?_
  rw [find?_eq_some_iff, Option.filter_eq_some_iff, find?_eq_some_iff, filter, List.mem_filter]

omit [Std.IsLinearOrder κ] [DecidableLT κ] in
theorem filter_congr {p q : κ → α → Bool} {m : SortedMap κ α}
    (h : ∀ k v, m.find? k = some v → p k v = q k v) : m.filter p = m.filter q :=
  ext (List.filter_congr fun b hb => h b.1 b.2 (find?_eq_some_iff.2 hb))

omit [LE κ] [Std.IsLinearOrder κ] [Std.LawfulOrderLT κ] [DecidableLT κ] [DecidableEq κ] in
theorem filter_filter (p q : κ → α → Bool) (m : SortedMap κ α) :
    (m.filter p).filter q = m.filter fun k v => q k v && p k v := ext List.filter_filter

omit [LE κ] [Std.IsLinearOrder κ] [Std.LawfulOrderLT κ] [DecidableLT κ] [DecidableEq κ] in
theorem filter_true (m : SortedMap κ α) : (m.filter fun _ _ => true) = m :=
  ext (List.filter_eq_self.2 fun _ _ => rfl)

omit [Std.IsLinearOrder κ] [DecidableLT κ] in
theorem mem_values {m : SortedMap κ α} {v : α} : v ∈ m.values ↔ ∃ k, m.find? k = some v := by
  simp [values, find?_eq_some_iff]

omit [LE κ] [Std.IsLinearOrder κ] [Std.LawfulOrderLT κ] [DecidableLT κ] in
theorem contains_eq_true_iff {m : SortedMap κ α} {k : κ} :
    m.contains k = true ↔ ∃ v, m.find? k = some v := Option.isSome_iff_exists

omit [Std.IsLinearOrder κ] [DecidableLT κ] in
theorem mem_keys {m : SortedMap κ α} {k : κ} : k ∈ m.keys ↔ m.contains k = true := by
  simp [keys, contains_eq_true_iff, find?_eq_some_iff]

theorem contains_insert (m : SortedMap κ α) (k l : κ) (v : α) :
    (m.insert k v).contains l = (decide (l = k) || m.contains l) := by
  by_cases h : l = k <;> simp [contains, find?_insert, h]

omit [LE κ] [Std.IsLinearOrder κ] [Std.LawfulOrderLT κ] [DecidableLT κ] [DecidableEq κ] in
theorem size_filter_le (p : κ → α → Bool) (m : SortedMap κ α) : (m.filter p).size ≤ m.size :=
  List.length_filter_le _ _

omit [Std.IsLinearOrder κ] [DecidableLT κ] in
theorem size_filter_lt {p : κ → α → Bool} {m : SortedMap κ α} {k : κ} {v : α}
    (h : m.find? k = some v) (hp : p k v = false) : (m.filter p).size < m.size :=
  List.length_filter_lt_length_iff_exists.2 ⟨(k, v), find?_eq_some_iff.1 h, by simp [hp]⟩

omit [Std.IsLinearOrder κ] [DecidableLT κ] in
/-- The first binding that satisfies a condition is the one of the least such key. -/
theorem map_find?_entries_eq_some_iff {p : κ × α → Bool} {m : SortedMap κ α} {k : κ} :
    (m.entries.find? p).map (·.1) = some k ↔ ∃ v, m.find? k = some v ∧ p (k, v) = true ∧
      ∀ l w, l < k → m.find? l = some w → p (l, w) = false := by
  simp only [Option.map_eq_some_iff, List.find?_eq_some_iff_append, find?_eq_some_iff,
    Bool.not_eq_true']
  constructor
  · rintro ⟨⟨k, v⟩, ⟨hp, before, after, hsplit, hbefore⟩, rfl⟩
    refine ⟨v, by simp [hsplit], hp, fun l w hl hm => ?_⟩
    have hasc := hsplit ▸ m.ascending
    rw [hsplit, List.mem_append, List.mem_cons] at hm
    rcases hm with hm | hm | hm
    · exact hbefore _ hm
    · cases hm
      exact absurd hl Std.lt_irrefl
    · have hk := (List.pairwise_cons.1 (List.pairwise_append.1 hasc).2.1).1 _ hm
      exact absurd hl (Std.not_gt_of_lt hk)
  · rintro ⟨v, hm, hp, hleast⟩
    obtain ⟨before, after, hsplit⟩ := List.append_of_mem hm
    refine ⟨(k, v), ⟨hp, before, after, hsplit, fun b hb => ?_⟩, rfl⟩
    have hasc := hsplit ▸ m.ascending
    refine hleast b.1 b.2 ?_ (by simp [hsplit, hb])
    exact (List.pairwise_append.1 hasc).2.2 b hb _ List.mem_cons_self

end SortedMap

/-- A finite set as the keys of a map. -/
abbrev SortedSet (κ : Type) [LT κ] := SortedMap κ Unit

namespace SortedSet

variable {κ : Type} [LE κ] [LT κ] [Std.IsLinearOrder κ] [Std.LawfulOrderLT κ]
  [DecidableLT κ] [DecidableEq κ]

def add (s : SortedSet κ) (k : κ) : SortedSet κ := s.insert k ()

def addAll (s : SortedSet κ) (ks : List κ) : SortedSet κ := ks.foldl add s

def ofKeys (ks : List κ) : SortedSet κ := addAll .empty ks

theorem contains_addAll (s : SortedSet κ) (ks : List κ) (k : κ) :
    (addAll s ks).contains k = (s.contains k || decide (k ∈ ks)) := by
  induction ks generalizing s with
  | nil => simp [addAll]
  | cons l ks ih =>
    have hstep : addAll s (l :: ks) = addAll (add s l) ks := rfl
    rw [hstep, ih, add, SortedMap.contains_insert]
    by_cases hk : k = l <;> simp [hk]

theorem contains_ofKeys (ks : List κ) (k : κ) : (ofKeys ks).contains k = decide (k ∈ ks) := by
  rw [ofKeys, contains_addAll]
  exact Bool.false_or _

omit [Std.IsLinearOrder κ] [DecidableLT κ] in
theorem contains_ext {s t : SortedSet κ} (h : ∀ k, s.contains k = t.contains k) : s = t := by
  refine SortedMap.find?_ext fun k => ?_
  have hk := h k
  simp only [SortedMap.contains] at hk
  cases hs : s.find? k <;> cases ht : t.find? k <;> simp_all

theorem addAll_addAll (s : SortedSet κ) (ks : List κ) : addAll (addAll s ks) ks = addAll s ks :=
  contains_ext fun k => by
    rw [contains_addAll, contains_addAll, Bool.or_assoc, Bool.or_self]

end SortedSet

end GraphSync
