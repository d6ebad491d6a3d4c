import GraphSync.Proofs.FirstOccurrence
import GraphSync.Proofs.Load.Chunking
import GraphSync.Proofs.Sample
import GraphSync.Proofs.Value

/-! Nodes identified by whole numbers. Numbers that are signed words are told apart exactly. Past
them numbers are compared as doubles, and those that share one are taken for the same node. -/
namespace GraphSync

/-- Two whole numbers are one value if they are the same, or if one of them is no signed word, both
lie where doubles are multiples of 2048, and one such multiple is closest to both. -/
def Number.Coincide (a b : Int) : Prop :=
  a = b ∨ Word.signedBound ≤ max a b ∧ (Magnitude.coarseBound : Int) ≤ min a b ∧
    ∃ q, Magnitude.IsNearest a.toNat 2048 q ∧ Magnitude.IsNearest b.toNat 2048 q

instance (a b : Int) : Decidable (Number.Coincide a b) :=
  decidable_of_iff (a = b ∨ Word.signedBound ≤ max a b ∧ (Magnitude.coarseBound : Int) ≤ min a b ∧
    Magnitude.roundHalfEven a.toNat 2048 = Magnitude.roundHalfEven b.toNat 2048)
    (by rw [Magnitude.roundHalfEven_eq_roundHalfEven_iff (by decide), Number.Coincide])

/-- The identities of the nodes of a label, in the order of their creation. -/
def Graph.identities (g : Graph) (label : String) : List (Option Json) :=
  (g.labelled label).map (·.2.get? Names.id)

namespace Magnitude

variable {p q : Nat} {unit : Int}

theorem carried_inj : carried p unit = carried q unit ↔ p = q := by
  refine ⟨fun h => ?_, fun h => h ▸ rfl⟩
  rw [carried, carried] at h
  split at h <;> split at h <;> simp only [mk.injEq] at h
  · rw [‹p = _›, ‹q = _›]
  · omega
  · omega
  · exact h.1

theorem exponent_carried : unit ≤ (carried p unit).exponent := by
  rw [carried]
  split
  · exact Int.le_of_lt (Int.lt_add_one_of_le (Int.le_refl _))
  · exact Int.le_refl _

theorem isZero_carried (hp : p ≠ 0) : (carried p unit).isZero = false := by
  rw [carried]
  split
  · rfl
  · exact beq_false_of_ne hp

/-- No double of the numbers below is one of those that are multiples of 2048. -/
theorem exists_coarse {n : Nat} (hlow : coarseBound ≤ n) (hhigh : n < Word.unsignedBound) :
    ∃ x, ofNat n = some x ∧ x.isZero = false ∧
      (∀ m, coarseBound ≤ m → m < Word.unsignedBound →
        (ofNat m = some x ↔ ∃ q, IsNearest n 2048 q ∧ IsNearest m 2048 q)) ∧
      ∀ m, m < coarseBound → ofNat m ≠ some x := by
  have hround : roundHalfEven n 2048 ≠ 0 := by
    rw [Ne, roundHalfEven_eq_iff (by decide), IsNearest]
    rw [coarseBound_eq] at hlow
    omega
  refine ⟨_, ofNat_of_ge hlow hhigh, isZero_carried hround, fun m hm hm' => ?_, fun m hm => ?_⟩
  · rw [ofNat_of_ge hm hm', Option.some_inj, carried_inj, eq_comm]
    exact roundHalfEven_eq_roundHalfEven_iff (by decide)
  · obtain ⟨y, hy, hexponent⟩ := exists_ofNat_of_lt hm
    rw [hy, Ne, Option.some_inj]
    rintro rfl
    have hlarge : (11 : Int) ≤ (carried (roundHalfEven n 2048) 11).exponent := exponent_carried
    omega

end Magnitude

theorem Double.agrees_iff_of_not_isZero {x y : Double} (hx : x.isZero = false) :
    x.agrees y = true ↔ x = y := by
  rw [agrees, hx, Bool.false_and, Bool.or_false, beq_iff_eq]

namespace Number

variable {a b : Int}

theorem Coincide.symm (h : Coincide a b) : Coincide b a := by
  rcases h with h | ⟨hmax, hmin, q, ha, hb⟩
  · exact .inl h.symm
  · exact .inr ⟨Int.max_comm a b ▸ hmax, Int.min_comm a b ▸ hmin, q, hb, ha⟩

/-- Signed words are one value only if they are the same. -/
theorem coincide_iff_of_signed (ha : a < Word.signedBound) (hb : b < Word.signedBound) :
    Coincide a b ↔ a = b := by
  refine or_iff_left_of_imp fun h => ?_
  have hmax : Word.signedBound ≤ max a b := h.1
  omega

/-- A number that is no signed word is compared by the doubles closest to the two. -/
theorem agrees_iff_of_unsigned (ha : Word.signedBound ≤ a) (hword : a < Word.unsignedBound)
    (hb : (Json.int b).InRange) : agrees (.int a) (.int b) = true ↔ Coincide a b := by
  obtain ⟨hlow, hhigh⟩ := hb
  have hbound : (Magnitude.coarseBound : Int) ≤ Word.signedBound := by decide
  obtain ⟨x, hx, hzero, hsame, hother⟩ :=
    Magnitude.exists_coarse (n := a.toNat) (by omega) (by omega)
  obtain ⟨y, hy⟩ : ∃ y, Magnitude.ofNat b.natAbs = some y :=
    Option.isSome_iff_exists.1 (Magnitude.isSome_ofNat (by omega))
  have hagrees : agrees (.int a) (.int b) = true ↔ 0 ≤ b ∧ x = y := by
    have hsigned : signed? (.int a) = none := if_neg (by omega)
    have habs : a.natAbs = a.toNat := by omega
    have hpositive : decide (a < 0) = false := decide_eq_false (by omega)
    simp only [agrees, hsigned, double?, Double.ofInt, habs, hx, hy, Option.map_some, hpositive]
    rw [Double.agrees_iff_of_not_isZero (x := ⟨false, x⟩) hzero, Double.mk.injEq, eq_comm,
      decide_eq_false_iff_not, Int.not_lt]
  rw [hagrees]
  by_cases hcoarse : (Magnitude.coarseBound : Int) ≤ b
  · have habs : b.natAbs = b.toNat := by omega
    rw [habs] at hy
    have hshare := hsame b.toNat (by omega) (by omega)
    rw [hy, Option.some_inj, eq_comm] at hshare
    rw [hshare, and_iff_right (by omega : 0 ≤ b)]
    constructor
    · exact fun hq => .inr ⟨by omega, by omega, hq⟩
    · rintro (rfl | ⟨-, -, hq⟩)
      · exact ⟨_, Magnitude.isNearest_roundHalfEven (by decide),
          Magnitude.isNearest_roundHalfEven (by decide)⟩
      · exact hq
  · refine iff_of_false ?_ ?_
    · rintro ⟨hpositive, rfl⟩
      exact hother b.natAbs (by omega) hy
    · rintro (rfl | ⟨-, hmin, -⟩) <;> omega

end Number

theorem Json.agrees_int_iff {a b : Int} (ha : (Json.int a).InRange) (hb : (Json.int b).InRange) :
    (Json.int a).agrees (Json.int b) = true ↔ Number.Coincide a b := by
  have hone : (Json.int a).agrees (Json.int b) = Number.agrees (.int a) (.int b) := rfl
  by_cases hsa : a < Word.signedBound
  · by_cases hsb : b < Word.signedBound
    · rw [Number.coincide_iff_of_signed hsa hsb]
      exact agrees_signed_iff ⟨ha.1, hsa⟩ ⟨hb.1, hsb⟩
    · rw [hone, Number.agrees_comm, Number.agrees_iff_of_unsigned (Int.not_lt.1 hsb) hb.2 ha]
      exact ⟨.symm, .symm⟩
  · exact Number.agrees_iff_of_unsigned (Int.not_lt.1 hsa) ha.2 hb

/-- None of the numbers is dropped for one before it exactly if no two of them coincide. -/
theorem Json.eraseDupsBy_agrees_eq_self_iff {ids : List Int}
    (hrange : ∀ n ∈ ids, (Json.int n).InRange) :
    (ids.map Json.int).eraseDupsBy Json.agrees = ids.map Json.int ↔
      ids.Pairwise fun a b => ¬ Number.Coincide a b := by
  rw [eraseDupsBy_eq_self_iff, List.pairwise_map]
  have happly : ∀ {a b}, a ∈ ids → b ∈ ids →
      ((Json.int b).agrees (Json.int a) = false ↔ ¬ Number.Coincide a b) := by
    intro a b ha hb
    rw [Json.agrees_comm, ← Bool.not_eq_true, Json.agrees_int_iff (hrange a ha) (hrange b hb)]
  constructor
  · exact fun h => h.imp_of_mem fun ha hb => (happly ha hb).1
  · exact fun h => h.imp_of_mem fun ha hb => (happly ha hb).2

namespace Graph

variable {g : Graph} {now : Int} {s : NodeSchema} {u : NodeUpsert} {params : Parameters}
  {record : Record} {records : List Record} {id : Json} {label : String}

theorem findNode_eq_none_iff_identities : g.findNode label id = none ↔
    (g.identities label).any (·.any (·.agrees id)) = false := by
  rw [findNode, Option.map_eq_none_iff, List.find?_eq_none, identities, List.any_map,
    List.any_eq_false]
  rfl

theorem identities_setNode {key : Nat} {n m : Node} (hn : g.nodes.find? key = some n)
    (hlabel : m.hasLabel label = n.hasLabel label) (hid : m.get? Names.id = n.get? Names.id) :
    (g.setNode key m).identities label = g.identities label := by
  have hold : ∀ b ∈ g.nodes.entries, b.1 = key → b.2 = n := by
    rintro ⟨k, o⟩ hb rfl
    exact Option.some.inj ((SortedMap.find?_eq_some_iff.2 hb).symm.trans hn)
  rw [identities, identities, labelled, labelled, entries_setNode hn, List.filter_map, List.map_map]
  have hkept : g.nodes.entries.filter
      ((fun b => b.2.hasLabel label) ∘ fun b => if b.1 = key then (key, m) else b) =
        g.nodes.entries.filter fun b => b.2.hasLabel label := by
    refine List.filter_congr fun b hb => ?_
    rw [Function.comp_apply]
    split
    · next hk => rw [hlabel, hold b hb hk]
    · rfl
  rw [hkept]
  refine List.map_congr_left fun b hb => ?_
  rw [Function.comp_apply]
  split
  · next hk => rw [hid, hold b (List.mem_of_mem_filter hb) hk]
  · rfl

theorem identities_putNode (hg : g.WellFormed) (hlabel : u.label ∉ u.extraLabels)
    (hid : u.properties.id.resolve record params = some id) :
    (putNode now u params g record).identities u.label =
      if (g.identities u.label).any (·.any (·.agrees id)) then g.identities u.label
      else g.identities u.label ++ [some id] := by
  cases hf : g.findNode u.label id with
  | none =>
    have hcreated : (u.update params record (u.created now id)).hasLabel u.label = true := by
      rw [NodeUpsert.hasLabel_update, NodeUpsert.hasLabel_created]
      simp
    have hvalue : (u.update params record (u.created now id)).get? Names.id = some id :=
      NodeUpsert.get?_id_update.trans NodeUpsert.get?_id_created
    rw [findNode_eq_none_iff_identities.1 hf, if_neg Bool.false_ne_true,
      putNode_of_absent hid hf, identities, labelled, entries_addNode hg, List.filter_append,
      List.filter_singleton, hcreated, List.map_append]
    simp only [cond_true, List.map_cons, hvalue, List.map_nil]
    rfl
  | some key =>
    obtain ⟨n, hn, -⟩ := findNode_eq_some_iff.1 hf
    have hany : (g.identities u.label).any (·.any (·.agrees id)) = true := by
      rw [← Bool.not_eq_false, ← findNode_eq_none_iff_identities, hf]
      exact Option.some_ne_none key
    rw [if_pos hany, putNode_of_found hid hf hn]
    refine identities_setNode hn ?_ NodeUpsert.get?_id_update
    rw [NodeUpsert.hasLabel_update, decide_eq_false hlabel, Bool.or_false]

/-- Records written one by one keep each identity that agrees with none kept before. -/
theorem identities_putNodes {vs ws : List Json} (hg : g.WellFormed)
    (hids : records.map (s.properties.id.resolve · params) = vs.map some)
    (hbefore : g.identities s.label = (ws.eraseDupsBy Json.agrees).map some) :
    (g.putNodes now s params records).identities s.label =
      ((ws ++ vs).eraseDupsBy Json.agrees).map some := by
  induction records generalizing g vs ws with
  | nil =>
    obtain rfl : vs = [] := List.map_eq_nil_iff.1 hids.symm
    rw [List.append_nil]
    exact hbefore
  | cons r rest ih =>
    obtain ⟨v, vs, rfl, hv, hrest⟩ := List.map_eq_cons_iff.1 hids.symm
    have hany : (g.identities s.label).any (·.any (·.agrees v)) =
        (ws.eraseDupsBy Json.agrees).any v.agrees := by
      rw [hbefore, List.any_map]
      exact congrArg _ (funext fun w => Json.agrees_comm w v)
    have hnext : (putNode now s.upsert params g r).identities s.label =
        ((ws ++ [v]).eraseDupsBy Json.agrees).map some := by
      have hput : (putNode now s.upsert params g r).identities s.label =
          if (g.identities s.label).any (·.any (·.agrees v)) then g.identities s.label
          else g.identities s.label ++ [some v] :=
        identities_putNode hg s.label_not_mem_extraLabels hv.symm
      rw [hput, hany, hbefore, eraseDupsBy_concat]
      split
      · rfl
      · rw [List.map_append, List.map_singleton]
    have hlater := ih hg.putNode hrest.symm hnext
    rw [List.append_assoc] at hlater
    exact hlater

end Graph

namespace Load

variable {g : Graph} {now tag : Int} {s : NodeSchema} {params : Parameters}
  {cs : List (List Record)} {config : LoaderConfig} {records : List Record}

/-- A number is still the value referred to once a batch is bound in place of the empty one. -/
theorem resolve_withBatch_of_base {ref : PropertyRef} {record : Record} {n : Int} {c : List Record}
    (hv : ref.resolve record (baseParameters params tag) = some (.int n)) :
    ref.resolve record ((baseParameters params tag).withBatch c) = some (.int n) := by
  rw [← hv]
  refine NodeSchema.resolve_withBatch (fun hsource hname => ?_) record
  rw [PropertyRef.resolve, PropertyRef.find?, hsource, hname, baseParameters] at hv
  simp only [SortedMap.find?_insert, if_true] at hv
  cases hv

theorem identities_batches {ids : List Int} {ws : List Json} (hg : g.WellFormed)
    (hids : cs.flatten.map (s.properties.id.resolve · (baseParameters params tag)) =
      ids.map (some ∘ Json.int))
    (hbefore : g.identities s.label = (ws.eraseDupsBy Json.agrees).map some) :
    (batches now s (baseParameters params tag) g cs).identities s.label =
      ((ws ++ ids.map Json.int).eraseDupsBy Json.agrees).map some := by
  induction cs generalizing g ids ws with
  | nil =>
    obtain rfl : ids = [] := List.map_eq_nil_iff.1 hids.symm
    rw [List.map_nil, List.append_nil]
    exact hbefore
  | cons c cs ih =>
    rw [List.flatten_cons, List.map_append] at hids
    obtain ⟨first, rest, rfl, hfirst, hrest⟩ := List.map_eq_append_iff.1 hids.symm
    have hbound : c.map (s.properties.id.resolve · ((baseParameters params tag).withBatch c)) =
        (first.map Json.int).map some := by
      rw [List.map_map, hfirst]
      refine List.map_congr_left fun r hr => ?_
      obtain ⟨n, -, hn⟩ := List.mem_map.1 (hfirst.symm ▸ List.mem_map_of_mem hr)
      rw [resolve_withBatch_of_base hn.symm]
      exact hn
    have hnext : (g.loadBatch now s ((baseParameters params tag).withBatch c) c).identities
        s.label = ((ws ++ first.map Json.int).eraseDupsBy Json.agrees).map some := by
      rw [Graph.identities, Graph.labelled_congr Graph.nodes_loadBatch]
      exact Graph.identities_putNodes hg hbound hbefore
    have hlater := ih hg.loadBatch hrest.symm hnext
    rw [List.append_assoc, ← List.map_append] at hlater
    exact hlater

/-- What a load leaves of records that have whole numbers for identities, if it starts without nodes
of their label. -/
structure Numbered (s : NodeSchema) (ids : List Int) (summary : LoadSummary) (h : Graph) :
    Prop where
  loaded : summary.loaded = ids.length
  /-- A number has a node unless it is one value with an earlier number that has one. -/
  nodes : h.identities s.label = ((ids.map Json.int).eraseDupsBy Json.agrees).map some
  /-- Each record has a node of its own, in the order of the records, if no two numbers coincide. -/
  own : (ids.Pairwise fun a b => ¬ Number.Coincide a b) →
    h.identities s.label = ids.map (some ∘ Json.int)
  /-- Otherwise some node stands for several records. -/
  merged : ¬ (ids.Pairwise fun a b => ¬ Number.Coincide a b) →
    (h.labelled s.label).length < ids.length

theorem numbered_of_nodes {ids : List Int} {summary : LoadSummary} {h' : Graph}
    (hg : g.WellFormed) (hempty : g.labelled s.label = [])
    (hrange : ∀ n ∈ ids, (Json.int n).InRange)
    (hids : (kept s records params).map (s.properties.id.resolve · (baseParameters params tag)) =
      ids.map (some ∘ Json.int))
    (hload : Load.nodes config now s records params tag g = (.ok summary, h')) :
    Numbered s ids summary h' := by
  have hloaded : summary.loaded = ids.length := by
    rw [loaded_of_nodes hload, ← List.length_map, hids, List.length_map]
  have hnodes : h'.identities s.label =
      ((ids.map Json.int).eraseDupsBy Json.agrees).map some := by
    rw [(batches_of_nodes hload).2]
    have hstart : (indexed s g).identities s.label =
        (([] : List Json).eraseDupsBy Json.agrees).map some := by
      rw [Graph.identities, show (indexed s g).labelled s.label = [] from hempty]
      rfl
    refine identities_batches (wellFormed_indexed hg) ?_ hstart
    rw [flatten_chunks]
    exact hids
  have hpairwise := Json.eraseDupsBy_agrees_eq_self_iff hrange
  constructor
  case loaded => exact hloaded
  case nodes => exact hnodes
  case own =>
    intro h
    rw [hnodes, hpairwise.2 h, List.map_map]
  case merged =>
    intro h
    have hle : ((ids.map Json.int).eraseDupsBy Json.agrees).length ≤ (ids.map Json.int).length :=
      eraseDupsBy_sublist.length_le
    have hne : ((ids.map Json.int).eraseDupsBy Json.agrees).length ≠ (ids.map Json.int).length :=
      fun heq => h (hpairwise.1 (eraseDupsBy_sublist.eq_of_length heq))
    have hlength : (h'.labelled s.label).length =
        ((ids.map Json.int).eraseDupsBy Json.agrees).length := by
      have hlength := congrArg List.length hnodes
      rwa [Graph.identities, List.length_map, List.length_map] at hlength
    rw [List.length_map] at hle hne
    omega

/-- Whole numbers are equal as values exactly if they coincide, which signed words do only if they
are the same. A load of records that have whole numbers for identities gives each of them a node of
its own exactly if no two of the numbers coincide, provided that there were no nodes of their
label. -/
theorem numbers_identify_nodes :
    (∀ a b : Int, (Json.int a).InRange → (Json.int b).InRange →
      ((Json.int a).agrees (Json.int b) = true ↔ Number.Coincide a b)) ∧
    (∀ a b : Int, a < Word.signedBound → b < Word.signedBound →
      (Number.Coincide a b ↔ a = b)) ∧
    ∀ (config : LoaderConfig) (now tag : Int) (s : NodeSchema) (records : List Record)
      (params : Parameters) (ids : List Int) (g : Graph), g.WellFormed →
      g.labelled s.label = [] →
      (∀ st ∈ s.loadStatements,
        BoundStatement.check ⟨st, baseParameters params tag⟩ = .ok ()) →
      (∀ n ∈ ids, (Json.int n).InRange) →
      (kept s records params).map (s.properties.id.resolve · (baseParameters params tag)) =
        ids.map (some ∘ Json.int) →
      ∃ summary h, Load.nodes config now s records params tag g = (.ok summary, h) ∧
        Numbered s ids summary h := by
  refine ⟨fun a b => Json.agrees_int_iff, fun a b => Number.coincide_iff_of_signed, ?_⟩
  intro config now tag s records params ids g hg hempty hcheck hrange hids
  obtain ⟨summary, h, hload⟩ := nodes_of_check config now records g hcheck
  exact ⟨summary, h, hload, numbered_of_nodes hg hempty hrange hids hload⟩

end Load

namespace Sample

/-- A bucket with a number for identity. -/
def numberedBucket (n : Int) : Record := SortedMap.ofList [("id", .int n)]

/-- The last signed word and two numbers past it that are further apart than doubles are there. -/
def farApart : List Int := [9223372036854774784, 9223372036854775808, 9223372036854777856]

end Sample

namespace Load

/-- Numbers with doubles of their own have nodes of their own. -/
theorem numbers_identify_nodes_of_sample : ∃ summary h,
    Load.nodes {} 5 Sample.bucket (Sample.farApart.map Sample.numberedBucket) Sample.params 2
      .empty = (.ok summary, h) ∧ summary.loaded = 3 ∧
    h.identities "Bucket" = Sample.farApart.map (some ∘ Json.int) ∧
    (Json.int 9223372036854775807).agrees (.int 9223372036854775806) = false ∧
    (Json.int 9223372036854775807).agrees (.int 9223372036854775808) = true := by
  obtain ⟨hagrees, hsigned, hload⟩ := numbers_identify_nodes
  obtain ⟨summary, h, hok, hnumbered⟩ := hload {} 5 2 Sample.bucket
    (Sample.farApart.map Sample.numberedBucket) Sample.params Sample.farApart .empty
    Graph.Reachable.empty.wellFormed rfl Sample.check_load (by decide) rfl
  refine ⟨summary, h, hok, hnumbered.loaded, hnumbered.own (by decide), ?_, ?_⟩
  · refine Bool.eq_false_iff.2 fun h => ?_
    exact absurd ((hagrees _ _ (by decide) (by decide)).1 h) (by decide)
  · exact (hagrees _ _ (by decide) (by decide)).2 (by decide)

/-- Two numbers past the signed words have one double, so that they are one value and two records
are loaded as one node. -/
theorem numbers_share_node : (9223372036854775808 : Int) ≠ 9223372036854775809 ∧
    (Json.int 9223372036854775808).agrees (.int 9223372036854775809) = true ∧
    ∃ summary h, Load.nodes {} 5 Sample.bucket
        ([9223372036854775808, 9223372036854775809].map Sample.numberedBucket) Sample.params 2
          .empty = (.ok summary, h) ∧
      summary.loaded = 2 ∧ h.identities "Bucket" = [some (.int 9223372036854775808)] := by
  have hcoincide : Number.Coincide 9223372036854775808 9223372036854775809 := by decide
  have hagrees : (Json.int 9223372036854775808).agrees (.int 9223372036854775809) = true :=
    (Json.agrees_int_iff (by decide) (by decide)).2 hcoincide
  obtain ⟨summary, h, hload⟩ := nodes_of_check {} 5
    ([9223372036854775808, 9223372036854775809].map Sample.numberedBucket) .empty Sample.check_load
  have hnumbered : Numbered Sample.bucket [9223372036854775808, 9223372036854775809] summary h :=
    numbered_of_nodes Graph.Reachable.empty.wellFormed rfl (by decide) rfl hload
  refine ⟨by decide, hagrees, summary, h, hload, hnumbered.loaded, hnumbered.nodes.trans ?_⟩
  have hmerged : (Json.int 9223372036854775809).agrees (.int 9223372036854775808) = true := by
    rw [Json.agrees_comm, hagrees]
  simp [List.eraseDupsBy_cons, hmerged]

end Load

end GraphSync
