import Mathlib.Data.List.Sort
import GraphSync.Proofs.Cleanup.Sweep

/-! Sweeps repeated page by page, until they find nothing. -/
namespace GraphSync

/-- Pages are struck until nothing is found; the keys that go, in the order in which they go. -/
inductive Sweep.Paged (w : Sweep) (size : Nat) : Graph → List Nat → Graph → Prop
  | done {g} (hnil : w.targets g = []) : Paged w size g [] g
  | page {g keys h} (hne : w.targets g ≠ [])
      (rest : Paged w size (w.strike g ((w.targets g).take size)) keys h) :
      Paged w size g ((w.targets g).take size ++ keys) h

namespace Sweep

variable {w : Sweep} {size : Nat} {g h : Graph} {keys : List Nat} {key : Nat}

/-- A page of what is found is not empty, and leaves less. -/
theorem page_smaller (hpos : 0 < size) (hne : w.targets g ≠ []) :
    ((w.targets g).take size).length ≠ 0 ∧
      (w.strike g ((w.targets g).take size)).size < g.size := by
  obtain ⟨k, ks, hks⟩ := List.exists_cons_of_ne_nil hne
  have hk : k ∈ (w.targets g).take size := by
    rw [hks]
    exact List.mem_take_iff_getElem.2 ⟨0, Nat.lt_min.2 ⟨hpos, Nat.succ_pos _⟩, rfl⟩
  exact ⟨Nat.ne_of_gt (List.length_pos_of_mem hk), w.smaller (hks ▸ List.mem_cons_self) hk⟩

/-- Pages that are never empty come to an end, as each of them leaves a smaller graph. -/
theorem exists_paged (w : Sweep) (g : Graph) (hpos : 0 < size) :
    ∃ keys h, w.Paged size g keys h := by
  induction hn : g.size using Nat.strongRecOn generalizing g with
  | ind n ih =>
    by_cases hnil : w.targets g = []
    · exact ⟨[], g, .done hnil⟩
    · obtain ⟨keys, h, hp⟩ := ih _ (hn ▸ (page_smaller hpos hnil).2) _ rfl
      exact ⟨_, h, .page hnil hp⟩

theorem Paged.eq_strike (hp : w.Paged size g keys h) : h = w.strike g keys := by
  induction hp with
  | done => exact (w.strike_nil _).symm
  | page _ _ ih => rw [ih, w.strike_strike]

theorem Paged.targets_eq_nil (hp : w.Paged size g keys h) : w.targets h = [] := by
  induction hp with
  | done hnil => exact hnil
  | page _ _ ih => exact ih

/-- A page is chosen on what the pages before it left, so what goes was found at the start. -/
theorem Paged.mem_targets (hp : w.Paged size g keys h) (hk : key ∈ keys) :
    key ∈ w.targets g := by
  induction hp with
  | done => cases hk
  | page _ _ ih =>
    rcases List.mem_append.1 hk with hk | hk
    · exact List.mem_of_mem_take hk
    · exact w.mono (w.within _ _) (ih hk)

theorem Paged.within (hp : w.Paged size g keys h) : h.Within g := by
  rw [hp.eq_strike]
  exact w.within g keys

/-- Keys go in ascending order, from page to page too. -/
theorem Paged.ascending (hp : w.Paged size g keys h) : keys.Pairwise (· < ·) := by
  induction hp with
  | done => exact .nil
  | @page g _ _ _ rest ih =>
    refine List.pairwise_append.2 ⟨(w.ascending g).sublist (List.take_sublist _ _), ih, ?_⟩
    intro a ha b hb
    have hfound := rest.mem_targets hb
    have hb' : b ∈ (w.targets g).take size ++ (w.targets g).drop size := by
      rw [List.take_append_drop]
      exact w.mono (w.within _ _) hfound
    have hasc := w.ascending g
    rw [← List.take_append_drop size (w.targets g)] at hasc
    refine (List.pairwise_append.1 hasc).2.2 a ha b ((List.mem_append.1 hb').resolve_left ?_)
    exact fun htake => w.gone htake hfound

/-- Nothing that is found keeps being found only as long as something before it is there. -/
def Steady (w : Sweep) (g : Graph) : Prop :=
  ∀ key ∈ w.targets g, key ∈ w.targets (w.strike g ((w.targets g).filter (· < key)))

theorem within_strike_of_append (keys more : List Nat) :
    (w.strike g (keys ++ more)).Within (w.strike g keys) := by
  rw [← w.strike_strike]
  exact w.within _ _

/-- In an ascending list, what stands before a member is what is less than it. -/
theorem filter_lt_of_ascending {before after : List Nat}
    (ha : (before ++ key :: after).Pairwise (· < ·)) :
    (before ++ key :: after).filter (· < key) = before := by
  obtain ⟨-, hafter, hcross⟩ := List.pairwise_append.1 ha
  have hb : ∀ k ∈ before, k < key := fun k hk => hcross k hk key List.mem_cons_self
  have hl : ∀ k ∈ after, ¬ k < key := fun k hk =>
    Nat.lt_asymm ((List.pairwise_cons.1 hafter).1 k hk)
  rw [List.filter_append, List.filter_eq_self.2 (by simpa using hb),
    List.filter_eq_nil_iff.2, List.append_nil]
  rintro k hk
  rcases List.mem_cons.1 hk with rfl | hk
  · simp
  · simpa using hl k hk

/-- A steady sweep finds the rest of its targets after any first part of them. -/
theorem Steady.targets_strike (hs : w.Steady g) {before after : List Nat}
    (ht : w.targets g = before ++ after) : w.targets (w.strike g before) = after := by
  have hasc := ht ▸ w.ascending g
  refine (w.ascending _).eq_of_mem_iff (List.pairwise_append.1 hasc).2.1 fun key => ?_
  constructor
  · intro hk
    have hg : key ∈ before ++ after := ht ▸ w.mono (w.within _ _) hk
    rcases List.mem_append.1 hg with hb | ha
    · exact absurd hk (w.gone hb)
    · exact ha
  · intro hk
    obtain ⟨mid, rest, rfl⟩ := List.append_of_mem hk
    have hfound := hs key (by simp [ht])
    rw [ht, ← List.append_assoc, filter_lt_of_ascending (by simpa using hasc)] at hfound
    exact w.mono (within_strike_of_append before mid) hfound

theorem Paged.keys_eq_of_steady (hp : w.Paged size g keys h) {start : Graph}
    (hs : w.Steady start) {before : List Nat} (hg : g = w.strike start before)
    (ht : w.targets start = before ++ w.targets g) :
    before ++ keys = w.targets start := by
  induction hp generalizing before with
  | done hnil => rw [ht, hnil]
  | @page g keys h hne rest ih =>
    have hcut : w.targets start = before ++ (w.targets g).take size ++ (w.targets g).drop size := by
      rw [List.append_assoc, List.take_append_drop]
      exact ht
    rw [← List.append_assoc]
    refine ih (by rw [hg, w.strike_strike, ← hg]) ?_
    rw [hg, w.strike_strike, ← hg, hs.targets_strike hcut]
    exact hcut

/-- A steady sweep takes away all that it finds at the start, whatever the size of its pages. -/
theorem Paged.eq_targets (hp : w.Paged size g keys h) (hs : w.Steady g) :
    keys = w.targets g :=
  hp.keys_eq_of_steady hs (w.strike_nil g).symm rfl

/-- Pages of one target show whether it is found once those before it have gone. -/
theorem Paged.found (hp : w.Paged 1 g keys h) {start : Graph} (before : List Nat)
    (hg : g = w.strike start before) {pre post : List Nat} (hk : keys = pre ++ key :: post) :
    key ∈ w.targets (w.strike start (before ++ pre)) := by
  induction hp generalizing before pre with
  | done => simp at hk
  | @page g keys h hne rest ih =>
    obtain ⟨k, ks, hks⟩ := List.exists_cons_of_ne_nil hne
    have hpage : (w.targets g).take 1 = [k] := by simp [hks]
    rw [hpage] at ih
    rw [hpage, List.singleton_append] at hk
    cases pre with
    | nil =>
      obtain ⟨rfl, -⟩ := List.cons.inj hk
      rw [List.append_nil, ← hg, hks]
      exact List.mem_cons_self
    | cons p pre =>
      obtain ⟨rfl, hrest⟩ := List.cons.inj hk
      have := ih (before ++ [k]) (by rw [hg, w.strike_strike]) hrest
      simpa using this

/-- Pages of one target take all targets away only if the sweep is steady. -/
theorem Paged.steady (hp : w.Paged 1 g keys h) (hall : ∀ key ∈ w.targets g, key ∈ keys) :
    w.Steady g := by
  have hk : keys = w.targets g := hp.ascending.eq_of_mem_iff (w.ascending g) fun key =>
    ⟨hp.mem_targets, hall key⟩
  intro key hkey
  obtain ⟨pre, post, hsplit⟩ := List.append_of_mem hkey
  have hfound := hp.found [] (w.strike_nil g).symm (hk.trans hsplit)
  rw [hsplit, filter_lt_of_ascending (hsplit ▸ w.ascending g)]
  exact hfound

/-- Sweeps one after the other, with the number of keys that go. -/
inductive Run (size : Nat) : List Sweep → Graph → Nat → Graph → Prop
  | nil (g : Graph) : Run size [] g 0 g
  | cons {w : Sweep} {ws : List Sweep} {g mid h : Graph} {keys : List Nat} {n : Nat}
      (first : w.Paged size g keys mid) (rest : Run size ws mid n h) :
      Run size (w :: ws) g (keys.length + n) h

theorem exists_run (ws : List Sweep) (g : Graph) (hpos : 0 < size) : ∃ n h, Run size ws g n h := by
  induction ws generalizing g with
  | nil => exact ⟨0, g, .nil g⟩
  | cons w ws ih =>
    obtain ⟨keys, mid, hp⟩ := w.exists_paged g hpos
    obtain ⟨n, h, hr⟩ := ih mid
    exact ⟨_, h, .cons hp hr⟩

theorem Run.within {ws : List Sweep} {n : Nat} (hr : Run size ws g n h) : h.Within g := by
  induction hr with
  | nil => exact .refl _
  | cons first _ ih => exact ih.trans first.within

end Sweep

end GraphSync
