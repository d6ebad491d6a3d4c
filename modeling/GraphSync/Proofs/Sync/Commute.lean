import GraphSync.Proofs.Graph.Renaming
import GraphSync.Proofs.Sample
import GraphSync.Proofs.Sync.Mirror

/-! Syncs of schemas that do not look at each other's nodes can change places. -/
namespace GraphSync

/-! The keys that are given out after a change of places. -/

/-- Where a key moves once some keys after the bound have been given out. -/
def shift (bound gap key : Nat) : Nat := if key ≤ bound then key else key + gap

theorem shift_of_le {bound gap key : Nat} (hk : key ≤ bound) : shift bound gap key = key :=
  if_pos hk

theorem strictMono_shift (bound gap : Nat) : StrictMono (shift bound gap) := by
  intro k l hkl
  simp only [shift]
  split <;> split <;> omega

theorem Edge.rename_shift {e : Edge} {bound gap : Nat} (hs : e.start ≤ bound)
    (hf : e.finish ≤ bound) : e.rename (shift bound gap) = e := by
  rw [Edge.rename, shift_of_le hs, shift_of_le hf]

/-- The place of a key once the first keys after the bound change places with the next ones. -/
def exchangeKey (bound first next key : Nat) : Nat :=
  if key ≤ bound + first then shift bound next key
  else if key ≤ bound + first + next then key - first
  else key

theorem exchangeKey_exchangeKey (bound first next key : Nat) :
    exchangeKey bound next first (exchangeKey bound first next key) = key := by
  simp only [exchangeKey, shift]
  split_ifs <;> omega

def exchange (bound first next : Nat) : Equiv.Perm Nat where
  toFun := exchangeKey bound first next
  invFun := exchangeKey bound next first
  left_inv := exchangeKey_exchangeKey bound first next
  right_inv := exchangeKey_exchangeKey bound next first

theorem exchange_of_le {bound first next key : Nat} (hk : key ≤ bound + first) :
    exchange bound first next key = shift bound next key :=
  if_pos hk

theorem exchange_shift {bound first next key : Nat} (hk : key ≤ bound + next) :
    exchange bound first next (shift bound first key) = key := by
  change exchangeKey bound first next (shift bound first key) = key
  simp only [exchangeKey, shift]
  split_ifs <;> omega

theorem Edge.rename_exchange {e : Edge} {bound first next : Nat} (hs : e.start ≤ bound + first)
    (hf : e.finish ≤ bound + first) :
    e.rename (exchange bound first next) = e.rename (shift bound next) := by
  rw [Edge.rename, exchange_of_le hs, exchange_of_le hf]
  rfl

theorem Edge.rename_exchange_shift {e : Edge} {bound first next : Nat}
    (hs : e.start ≤ bound + next) (hf : e.finish ≤ bound + next) :
    (e.rename (shift bound first)).rename (exchange bound first next) = e := by
  simp only [Edge.rename, exchange_shift hs, exchange_shift hf]

namespace NodeSchema

variable {a b : NodeSchema} {g h : Graph} {key start finish gap : Nat} {n : Node}

/-- No edge is within what both schemas read and write. -/
theorem Parted.not_spans (hp : b.Parted a g) (ha : g.Spans a start finish) :
    ¬ g.Spans b start finish := by
  rintro ⟨-, -, ⟨n, hn, hd⟩ | ⟨n, hn, hd⟩⟩
  · obtain ⟨m, hm, hs⟩ := ha.1
    exact hp _ n hn hd (Option.some.inj (hn.symm.trans hm) ▸ hs)
  · obtain ⟨m, hm, hs⟩ := ha.2.1
    exact hp _ n hn hd (Option.some.inj (hn.symm.trans hm) ▸ hs)

/-- What the other schema does to its own leaves a graph that looks the same to this one. -/
theorem Tracks.of_confined (hg : g.WellFormed) (hh : h.WellFormed)
    (hkeys : h.lastKey = g.lastKey + gap) (hpg : b.Parted a g) (hph : b.Parted a h)
    (hc : b.Confined g h) : a.Tracks (shift g.lastKey gap) g h := by
  have hseen : ∀ {key n}, a.Sees n →
      (h.nodes.find? key = some n ↔ g.nodes.find? key = some n) := fun {key n} hs =>
    ⟨fun hn => (hc.node fun hd => hph key n hn hd hs).1 hn,
      fun hn => (hc.node fun hd => hpg key n hn hd hs).2 hn⟩
  have hspans : ∀ {start finish}, h.Spans a start finish ↔ g.Spans a start finish := fun {_ _} =>
    Graph.spans_iff_of_node (σ := id) hseen
  have hedge : ∀ {key} {e : Edge}, g.Spans a e.start e.finish →
      (h.edges.find? key = some e ↔ g.edges.find? key = some e) := fun hr =>
    ⟨fun he => hc.edge_old he (hph.not_spans (hspans.2 hr)),
      fun he => hc.edge he (hpg.not_spans hr) (hspans.2 hr).hasEnds⟩
  refine ⟨strictMono_shift _ _, hg, hh, fun d => ?_, fun {key n} hs => ?_, fun {key n} hn hs => ?_,
    fun {key e} hr => ?_, fun {key f} hf hr => ?_⟩
  · rw [shift, if_neg (by omega)]
    omega
  -- A key after the last of `g` moves to one after the last of `h`, and neither is in use.
  · by_cases hk : key ≤ g.lastKey
    · rw [shift_of_le hk]
      exact hseen hs
    · rw [shift, if_neg hk]
      exact ⟨fun hn => absurd (hh.node_le hn) (by omega), fun hn => absurd (hg.node_le hn) hk⟩
  · exact ⟨key, shift_of_le (hg.node_le ((hseen hs).1 hn))⟩
  · obtain ⟨⟨n, hn⟩, m, hm⟩ := hr.hasEnds
    rw [Edge.rename_shift (hg.node_le hn) (hg.node_le hm)]
    by_cases hk : key ≤ g.lastKey
    · rw [shift_of_le hk]
      exact hedge hr
    · rw [shift, if_neg hk]
      exact ⟨fun he => absurd (hh.edge_le he) (by omega), fun he => absurd (hg.edge_le he) hk⟩
  · have hold := (hedge (hspans.1 hr)).1 hf
    obtain ⟨hs, hf⟩ := hg.ends_le hold
    exact ⟨key, f, shift_of_le (hg.edge_le hold), Edge.rename_shift hs hf⟩

/-- Two runs from one graph, and each of them again after the other. -/
structure Diamond (a b : NodeSchema) (p q : Nat) (g ga gb gab gba : Graph) : Prop where
  left_key : ga.lastKey = g.lastKey + p
  right_key : gb.lastKey = g.lastKey + q
  left_tracks : a.Tracks (shift g.lastKey q) g gb
  right_tracks : b.Tracks (shift g.lastKey p) g ga
  left : a.Mirrors (shift g.lastKey q) g gb ga gba
  right : b.Mirrors (shift g.lastKey p) g ga gb gab
  left_parted : a.Parted b ga
  right_parted : b.Parted a gb

namespace Diamond

variable {p q : Nat} {ga gb gab gba : Graph} {e : Edge}

theorem symm (hd : Diamond a b p q g ga gb gab gba) : Diamond b a q p g gb ga gba gab :=
  ⟨hd.right_key, hd.left_key, hd.right_tracks, hd.left_tracks, hd.right, hd.left, hd.right_parted,
    hd.left_parted⟩

/-- The first run does the same before the second and after it. -/
theorem tracks (hd : Diamond a b p q g ga gb gab gba) : a.Tracks (shift g.lastKey q) ga gba :=
  hd.left.tracks hd.left_tracks

theorem confined (hd : Diamond a b p q g ga gb gab gba) : a.Confined g ga :=
  hd.left.confined_left hd.left_tracks

theorem confined_after (hd : Diamond a b p q g ga gb gab gba) : a.Confined gb gba :=
  hd.left.confined_right hd.left_tracks

theorem lastKey (hd : Diamond a b p q g ga gb gab gba) : gba.lastKey = g.lastKey + p + q := by
  have hnext := hd.tracks.next_key
  have hkey := hd.left_key
  rw [shift, if_neg (by omega)] at hnext
  omega

/-- Each node is there in the other order: one of the second schema as it was before the first run,
one of the first schema as the first run leaves it, and any other as it was at the start. -/
theorem node (hd : Diamond a b p q g ga gb gab gba) (hn : gab.nodes.find? key = some n) :
    gba.nodes.find? (exchange g.lastKey p q key) = some n := by
  by_cases hb : b.Describes n
  · obtain ⟨k, rfl, hk⟩ := hd.symm.tracks.exists_node hn hb.sees
    have hle := hd.symm.tracks.left.node_le hk
    rw [exchange_shift (hd.right_key ▸ hle)]
    exact (hd.confined_after.node fun ha => hd.right_parted k n hk hb ha.sees).2 hk
  · have hga := (hd.symm.confined_after.node hb).1 hn
    rw [exchange_of_le (hd.left_key ▸ hd.tracks.left.node_le hga)]
    by_cases ha : a.Describes n
    · exact (hd.tracks.node ha.sees).2 hga
    · have hg := (hd.confined.node ha).1 hga
      rw [shift_of_le (hd.left_tracks.left.node_le hg)]
      exact (hd.confined_after.node ha).2 ((hd.symm.confined.node hb).2 hg)

theorem hasEnds (hd : Diamond a b p q g ga gb gab gba) (he : gab.edges.find? key = some e) :
    gba.HasEnds ((e.rename (exchange g.lastKey p q)).start,
      (e.rename (exchange g.lastKey p q)).finish) := by
  obtain ⟨n, hn⟩ := hd.symm.tracks.right.start he
  obtain ⟨m, hm⟩ := hd.symm.tracks.right.finish he
  exact ⟨⟨n, hd.node hn⟩, m, hd.node hm⟩

/-- An edge of the second schema is there in the other order as it was before the first run. -/
theorem edge_of_spans (hd : Diamond a b p q g ga gb gab gba) (he : gab.edges.find? key = some e)
    (hb : gab.Spans b e.start e.finish) : gba.edges.find? (exchange g.lastKey p q key) =
      some (e.rename (exchange g.lastKey p q)) := by
  have hends := hd.hasEnds he
  obtain ⟨k, f, rfl, rfl, hf, hr⟩ := hd.symm.tracks.exists_edge he hb
  have hk := hd.symm.tracks.left.edge_le hf
  obtain ⟨hstart, hfinish⟩ := hd.symm.tracks.left.ends_le hf
  rw [hd.right_key] at hk hstart hfinish
  rw [Edge.rename_exchange_shift hstart hfinish] at hends ⊢
  rw [exchange_shift hk]
  exact hd.confined_after.edge hf (fun ha => hd.right_parted.not_spans ha hr) hends

/-- The second run does not change which of the first nodes the first schema spans. -/
theorem spans_iff (hd : Diamond a b p q g ga gb gab gba) (hs : start ≤ g.lastKey)
    (hf : finish ≤ g.lastKey) : gb.Spans a start finish ↔ g.Spans a start finish := by
  have hiff : gb.Spans a (shift g.lastKey q start) (shift g.lastKey q finish) ↔
      g.Spans a start finish := hd.left_tracks.spans_iff
  rwa [shift_of_le hs, shift_of_le hf] at hiff

/-- An edge that is of neither schema is there in the other order as it was at the start. -/
theorem edge_of_neither (hd : Diamond a b p q g ga gb gab gba) (he : g.edges.find? key = some e)
    (hends : gba.HasEnds (e.start, e.finish)) (ha : ¬ g.Spans a e.start e.finish)
    (hb : ¬ g.Spans b e.start e.finish) : gba.edges.find? key = some e := by
  obtain ⟨hs, hf⟩ := hd.left_tracks.left.ends_le he
  have hle := hd.symm.confined.lastKey
  have hmid := hd.confined_after.hasEnds (Nat.le_trans hs hle) (Nat.le_trans hf hle) hends
  have hgb := hd.symm.confined.edge he hb hmid
  exact hd.confined_after.edge hgb (fun hr => ha ((hd.spans_iff hs hf).1 hr)) hends

/-- Each edge is there in the other order, between the same nodes. -/
theorem edge (hd : Diamond a b p q g ga gb gab gba) (he : gab.edges.find? key = some e) :
    gba.edges.find? (exchange g.lastKey p q key) =
      some (e.rename (exchange g.lastKey p q)) := by
  by_cases hb : gab.Spans b e.start e.finish
  · exact hd.edge_of_spans he hb
  · have hga := hd.symm.confined_after.edge_old he hb
    have hk := hd.tracks.left.edge_le hga
    obtain ⟨hstart, hfinish⟩ := hd.tracks.left.ends_le hga
    have hbga : ¬ ga.Spans b e.start e.finish := fun hr => hb
      ((hd.symm.confined_after.spans_iff hstart hfinish
        ⟨hd.symm.tracks.right.start he, hd.symm.tracks.right.finish he⟩).2 hr)
    have hends := hd.hasEnds he
    rw [hd.left_key] at hk hstart hfinish
    rw [Edge.rename_exchange hstart hfinish] at hends ⊢
    rw [exchange_of_le hk]
    -- The second run has left this edge alone, so the first run's part in it decides.
    by_cases ha : ga.Spans a e.start e.finish
    · exact (hd.tracks.edge ha).2 hga
    · have hg := hd.confined.edge_old hga ha
      obtain ⟨hs, hf⟩ := hd.left_tracks.left.ends_le hg
      have hag : ¬ g.Spans a e.start e.finish := fun hr => ha ((hd.confined.spans_iff hs hf
        ⟨hd.tracks.left.start hga, hd.tracks.left.finish hga⟩).2 hr)
      have hbg : ¬ g.Spans b e.start e.finish := fun hr => hbga ((hd.symm.spans_iff hs hf).2 hr)
      rw [Edge.rename_shift hs hf] at hends ⊢
      rw [shift_of_le (hd.left_tracks.left.edge_le hg)]
      exact hd.edge_of_neither hg hends hag hbg

theorem indexes (hd : Diamond a b p q g ga gb gab gba) : gba.indexes = gab.indexes := by
  obtain ⟨ts, hga, hgba⟩ := hd.left.exists_indexes
  obtain ⟨us, hgb, hgab⟩ := hd.right.exists_indexes
  refine SortedSet.contains_ext fun t => ?_
  rw [hgba, hgab, hga, hgb, SortedSet.contains_addAll, SortedSet.contains_addAll,
    SortedSet.contains_addAll, SortedSet.contains_addAll, Bool.or_right_comm]

/-- Both orders leave the same graph but for its keys. -/
theorem renames (hd : Diamond a b p q g ga gb gab gba) :
    Graph.Renames (exchange g.lastKey p q) gab gba := by
  have hback : ∀ key, exchange g.lastKey q p (exchange g.lastKey p q key) = key :=
    exchangeKey_exchangeKey _ _ _
  refine ⟨fun key => ?_, fun key => ?_, hd.indexes⟩
  · cases hn : gab.nodes.find? key with
    | some n => exact hd.node hn
    | none =>
      refine Option.eq_none_iff_forall_ne_some.2 fun n hn' => ?_
      have hgab := hd.symm.node hn'
      rw [hback, hn] at hgab
      cases hgab
  · cases he : gab.edges.find? key with
    | some e => exact hd.edge he
    | none =>
      refine Option.eq_none_iff_forall_ne_some.2 fun e he' => ?_
      have hgab := hd.symm.edge he'
      rw [hback, he] at hgab
      cases hgab

end Diamond

/-- Neither schema gives a label that the other gives or looks for. -/
def Independent (a b : NodeSchema) : Prop :=
  (∀ l ∈ a.labels, l ∉ b.labels ++ b.targetLabels) ∧ ∀ l ∈ b.labels, l ∉ a.labels ++ a.targetLabels

/-- No node has a label that the first schema gives and one that the second gives or looks for. -/
def Separate (a b : NodeSchema) (g : Graph) : Prop :=
  ∀ l ∈ a.labels, ∀ m ∈ b.labels ++ b.targetLabels, g.LabelsApart l m

instance (a b : NodeSchema) : Decidable (Independent a b) := inferInstanceAs (Decidable (_ ∧ _))

instance (a b : NodeSchema) (g : Graph) : Decidable (Separate a b g) :=
  inferInstanceAs (Decidable (∀ l ∈ a.labels, ∀ m ∈ b.labels ++ b.targetLabels, g.LabelsApart l m))

theorem subset_labels_append (s : NodeSchema) :
    s.label :: s.targetLabels ⊆ s.labels ++ s.targetLabels :=
  List.cons_subset_cons _ (List.subset_append_right _ _)

theorem Independent.symm (hab : Independent a b) : Independent b a := And.symm hab

theorem Independent.givesNone (hab : Independent a b) : a.GivesNone b :=
  fun l hl hm => hab.1 l hl (b.subset_labels_append hm)

theorem Separate.parted (hs : a.Separate b g) : a.Parted b g := by
  rintro key n hn hd ⟨m, hm, hseen⟩
  have hnot := hs a.label List.mem_cons_self m (b.subset_labels_append hm) key n hn hd
  rw [hnot] at hseen
  cases hseen

end NodeSchema

/-- What is run for a schema. -/
inductive Operation where
  | load (config : LoaderConfig) (now : Int) (records : List Record) (params : Parameters)
      (tag : Int)
  | cleanup (now : Int) (common : CommonParameters)

/-- What an operation says that it did. -/
inductive Report where
  | loaded (summary : LoadSummary)
  | removed (count : Nat)
deriving DecidableEq, Repr

namespace Operation

open NodeSchema

def run (s : NodeSchema) : Operation → GraphM GraphError Report
  | load config now records params tag =>
    .loaded <$> Load.nodes config now s records params tag
  | cleanup now common => .removed <$> (Job.cleanup s common).run now

variable {s a b : NodeSchema} {o first second : Operation} {σ : Nat → Nat}
  {x y u g h ga gb : Graph} {r r' : Report}

/-- Whether an operation succeeds does not depend on the graph. -/
theorem run_of_run (hr : o.run s x = (.ok r, u)) (y : Graph) :
    ∃ r v, o.run s y = (.ok r, v) := by
  cases o with
  | load config now records params tag =>
    obtain ⟨summary, hl, -⟩ := GraphM.map_eq_ok_iff.1 hr
    obtain ⟨other, v, hl'⟩ :=
      Load.nodes_of_check config now records y (Load.batches_of_nodes hl).1
    exact ⟨_, v, GraphM.map_eq_ok_iff.2 ⟨other, hl', rfl⟩⟩
  | cleanup now common =>
    obtain ⟨n, hn, -⟩ := GraphM.map_eq_ok_iff.1 hr
    obtain ⟨m, v, -, hm⟩ := run_cleanup now y (check_of_run hn)
    exact ⟨_, v, GraphM.map_eq_ok_iff.2 ⟨m, hm, rfl⟩⟩

/-- An operation does the same to graphs that look the same to its schema. -/
theorem mirrors (ht : s.Tracks σ x y) (hr : o.run s x = (.ok r, u)) :
    ∃ v, o.run s y = (.ok r, v) ∧ s.Mirrors σ x y u v := by
  cases o with
  | load config now records params tag =>
    obtain ⟨summary, hl, rfl⟩ := GraphM.map_eq_ok_iff.1 hr
    obtain ⟨v, hl', hm⟩ := mirrors_load ht hl
    exact ⟨v, GraphM.map_eq_ok_iff.2 ⟨summary, hl', rfl⟩, hm⟩
  | cleanup now common =>
    obtain ⟨n, hn, rfl⟩ := GraphM.map_eq_ok_iff.1 hr
    obtain ⟨v, hn', hm⟩ := mirrors_cleanup ht hn
    exact ⟨v, GraphM.map_eq_ok_iff.2 ⟨n, hn', rfl⟩, hm⟩

theorem wellFormed_of_run (hx : x.WellFormed) (hr : o.run s x = (.ok r, u)) : u.WellFormed := by
  obtain ⟨v, -, hm⟩ := mirrors (Tracks.refl s hx) hr
  exact (hm.tracks (Tracks.refl s hx)).left

theorem confined_of_run (hx : x.WellFormed) (hr : o.run s x = (.ok r, u)) : s.Confined x u := by
  obtain ⟨v, -, hm⟩ := mirrors (Tracks.refl s hx) hr
  exact hm.confined_left (Tracks.refl s hx)

/-- After an operation of one schema, the graph looks as before to the other. -/
theorem tracks_of_run (hx : x.WellFormed) (hba : b.GivesNone a) (hp : b.Parted a x)
    (hr : o.run b x = (.ok r, u)) :
    b.Parted a u ∧ u.lastKey = x.lastKey + (u.lastKey - x.lastKey) ∧
      a.Tracks (shift x.lastKey (u.lastKey - x.lastKey)) x u := by
  have hc := confined_of_run hx hr
  have hpu := hp.confined hba hc
  have hkey : u.lastKey = x.lastKey + (u.lastKey - x.lastKey) :=
    (Nat.add_sub_cancel' hc.lastKey).symm
  exact ⟨hpu, hkey, .of_confined hx (wellFormed_of_run hx hr) hkey hp hpu hc⟩

end Operation

open Operation in
/-- Operations of independent schemas, one after the other, can change places: they report the
same, and leave the same graph but for its keys. -/
theorem independent_syncs_commute {a b : NodeSchema} {first second : Operation} {g h i : Graph}
    {x y : Report} (hab : a.Independent b) (hg : g.Reachable) (ha : a.Separate b g)
    (hb : b.Separate a g) (hfirst : first.run a g = (.ok x, h))
    (hsecond : second.run b h = (.ok y, i)) :
    ∃ h' i', second.run b g = (.ok y, h') ∧ first.run a h' = (.ok x, i') ∧ i.Alike i' ∧
      i.lastKey = i'.lastKey := by
  have hw := hg.wellFormed
  obtain ⟨r, h', hgb⟩ := run_of_run hsecond g
  obtain ⟨hpa, hka, htb⟩ := tracks_of_run hw hab.givesNone ha.parted hfirst
  obtain ⟨hpb, hkb, hta⟩ := tracks_of_run hw hab.symm.givesNone hb.parted hgb
  obtain ⟨i', hgba, hma⟩ := mirrors hta hfirst
  obtain ⟨v, hgab, hmb⟩ := mirrors htb hgb
  cases hgab.symm.trans hsecond
  have hd : NodeSchema.Diamond a b _ _ g h h' i i' := ⟨hka, hkb, hta, htb, hma, hmb, hpa, hpb⟩
  refine ⟨h', i', hgb, hgba, ⟨_, hd.renames⟩, ?_⟩
  rw [hd.lastKey, hd.symm.lastKey, Nat.add_right_comm]

theorem independent_syncs_commute_of_sample :
    ∃ x y h i h' i',
      (Operation.load {} 5 Sample.records Sample.params 2).run Sample.bucket Sample.start =
        (.ok x, h) ∧
      (Operation.load {} 7 Sample.records Sample.params 3).run Sample.host h = (.ok y, i) ∧
      (Operation.load {} 7 Sample.records Sample.params 3).run Sample.host Sample.start =
        (.ok y, h') ∧
      (Operation.load {} 5 Sample.records Sample.params 2).run Sample.bucket h' = (.ok x, i') ∧
      i.Alike i' := by
  obtain ⟨x, h, hload⟩ := Load.nodes_of_check {} 5 Sample.records Sample.start Sample.check_load
  have hcheck : ∀ st ∈ Sample.host.loadStatements,
      BoundStatement.check ⟨st, Load.baseParameters Sample.params 3⟩ = .ok () :=
    Load.forall_check_iff.2 (by decide)
  obtain ⟨y, i, hload'⟩ := Load.nodes_of_check {} 7 Sample.records h hcheck
  have hfirst : (Operation.load {} 5 Sample.records Sample.params 2).run Sample.bucket
      Sample.start = (.ok (.loaded x), h) := GraphM.map_eq_ok_iff.2 ⟨x, hload, rfl⟩
  have hsecond : (Operation.load {} 7 Sample.records Sample.params 3).run Sample.host h =
      (.ok (.loaded y), i) := GraphM.map_eq_ok_iff.2 ⟨y, hload', rfl⟩
  have hab : Sample.bucket.Independent Sample.host := by decide
  have ha : Sample.bucket.Separate Sample.host Sample.start := by decide
  have hb : Sample.host.Separate Sample.bucket Sample.start := by decide
  obtain ⟨h', i', hgb, hgba, halike, -⟩ :=
    independent_syncs_commute hab Sample.reachable_start ha hb hfirst hsecond
  exact ⟨_, _, h, i, h', i', hfirst, hsecond, hgb, hgba, halike⟩

end GraphSync
