import Mathlib.Data.List.Dedup
import GraphSync.Json.Draft
import GraphSync.Ontology.Merge
import GraphSync.Proofs.Value

/-! What merging leaves: one record for each identity, with the first value of every field. -/
namespace GraphSync

namespace Json

open Draft (Piece readPiece)

/-- The piece that an escaped character is read as. -/
def Shows (p : Piece) (c : Char) : Prop := p = .plain c ∨ p = .unit c.toNat

theorem eq_of_shows {p : Piece} {c d : Char} (hc : Shows p c) (hd : Shows p d) : c = d := by
  rcases hc with rfl | rfl <;> rcases hd with hd | hd
  · exact Piece.plain.inj hd
  · cases hd
  · cases hd
  · exact Char.toNat_inj.1 (Piece.unit.inj hd)

theorem readUnit_hex {n : Nat} (hn : n < 32) (rest : List Char) :
    Draft.readUnit ('0' :: '0' :: hexDigit (n / 16) :: hexDigit (n % 16) :: rest) =
      .ok (n, rest) := by
  have hdigit : ∀ m < 16, Draft.hex? (hexDigit m) = some m := by decide
  have hzero : Draft.hex? '0' = some 0 := by decide
  have hn' : n / 16 * 16 + n % 16 = n := Nat.div_add_mod' n 16
  simp only [Draft.readUnit, hzero, hdigit _ (show n / 16 < 16 by omega),
    hdigit _ (Nat.mod_lt n (by decide)), Nat.zero_mul, Nat.zero_add, hn']

/-- A character that is printed as part of a text is read back. -/
theorem exists_readPiece_escape (c : Char) (rest : List Char) :
    ∃ p, Shows p c ∧ readPiece (escape c ++ rest) = .ok (p, rest) := by
  rw [escape.eq_def]
  split
  case h_8 hquote hslash _ _ _ _ _ =>
    split
    · next hcontrol =>
      refine ⟨.unit c.toNat, .inr rfl, ?_⟩
      simp only [List.cons_append, List.nil_append, readPiece, readUnit_hex hcontrol, Except.map]
    · next hcontrol =>
      refine ⟨.plain c, .inl rfl, ?_⟩
      rw [List.singleton_append, Draft.readPiece.eq_def]
      split <;> simp_all
  all_goals exact ⟨.plain _, .inl rfl, rfl⟩

/-- Different texts are printed differently. -/
theorem flatMap_escape_injective {xs ys : List Char}
    (h : xs.flatMap escape = ys.flatMap escape) : xs = ys := by
  have hend : ∀ {c : Char} {rest : List Char}, escape c ++ rest ≠ [] := by
    intro c rest hnil
    obtain ⟨p, -, hread⟩ := exists_readPiece_escape c rest
    rw [hnil] at hread
    cases hread
  induction xs generalizing ys with
  | nil =>
    cases ys with
    | nil => rfl
    | cons d ys => exact absurd h.symm hend
  | cons c xs ih =>
    cases ys with
    | nil => exact absurd h hend
    | cons d ys =>
      rw [List.flatMap_cons, List.flatMap_cons] at h
      obtain ⟨p, hp, hread⟩ := exists_readPiece_escape c (xs.flatMap escape)
      obtain ⟨q, hq, hread'⟩ := exists_readPiece_escape d (ys.flatMap escape)
      rw [h, hread'] at hread
      obtain ⟨rfl, hrest⟩ := Prod.mk.inj (Except.ok.inj hread)
      rw [eq_of_shows hp hq, ih hrest.symm]

theorem compact_str_inj {x y : String} : (str x).compact = (str y).compact ↔ x = y := by
  refine ⟨fun h => ?_, fun h => h ▸ rfl⟩
  have hlist := congrArg String.toList h
  simp only [compact, quote, String.toList_append, String.toList_ofList] at hlist
  have hbody := List.append_cancel_left (List.append_cancel_right hlist)
  exact String.toList_inj.1 (flatMap_escape_injective hbody)

end Json

namespace Merge

/-- The identity of a record, if it is a text. -/
def text? (idField : String) (r : Record) : Option String :=
  (r.present idField).bind Json.text?

/-- Every identity is a text. -/
def Textual (idField : String) (records : List Record) : Prop :=
  ∀ r ∈ records, ∀ v, r.present idField = some v → ∃ x, v = .str x

/-- The identities of records, each once. -/
def identities (idField : String) (records : List Record) : List String :=
  (records.filterMap (text? idField)).dedup

/-- The first value of a field that a record of an identity has. -/
def first? (idField x field : String) (records : List Record) : Option Json :=
  (records.filter fun r => text? idField r = some x).findSome? (·.present field)

variable {idField key x field : String} {r m : Record} {records done merged : List Record}

theorem present_fillField (b : String × Json) : (fillField r b).present field =
    (r.present field).or (if field = b.1 then Json.present (some b.2) else none) := by
  obtain ⟨name, v⟩ := b
  rw [fillField]
  cases hnull : v.isNull with
  | true =>
    obtain rfl : v = .null := by cases v <;> first | rfl | cases hnull
    simp [Json.present]
  | false =>
    rw [Json.present_of_not_null hnull]
    cases hown : r.present name with
    | some w =>
      by_cases hname : field = name
      · simp [hname, hown]
      · simp [hname]
    | none =>
      rw [Record.present, Bool.false_or, Option.isSome_none, if_neg Bool.false_ne_true,
        SortedMap.find?_insert]
      by_cases hname : field = name
      · simp [hname, hown, Json.present_of_not_null hnull]
      · simp [hname, Record.present]

theorem present_foldl_fillField {xs : List (String × Json)}
    (hxs : xs.Pairwise fun a b => a.1 < b.1) (r : Record) : (xs.foldl fillField r).present field =
      (r.present field).or (Json.present (SortedMap.seek field xs)) := by
  induction xs generalizing r with
  | nil => exact (Option.or_none).symm
  | cons b rest ih =>
    obtain ⟨hfirst, hrest⟩ := List.pairwise_cons.1 hxs
    rw [List.foldl_cons, ih hrest, present_fillField, Option.or_assoc, SortedMap.seek]
    by_cases hname : field = b.1
    · have hnone : SortedMap.seek field rest = none := by
        refine Option.eq_none_iff_forall_ne_some.2 fun v hv => ?_
        exact absurd (hname ▸ hfirst _ ((SortedMap.seek_eq_some_iff hrest).1 hv)) Std.lt_irrefl
      rw [if_pos hname, if_pos hname, hnone]
      exact congrArg _ Option.or_none
    · rw [if_neg hname, if_neg hname, Option.none_or]

/-- A record keeps its values, and takes those that it lacks from the other one. -/
theorem present_fill (r other : Record) :
    (fill r other).present field = (r.present field).or (other.present field) :=
  present_foldl_fillField other.ascending r

/-- A record is merged into the first one of its identity, or stands last if there is none. -/
theorem absorb_cases (idField key : String) (r : Record) (merged : List Record) :
    (∃ before m after, merged = before ++ m :: after ∧ identity? idField m = some key ∧
      absorb idField key r merged = before ++ fill m r :: after) ∨
    (∀ m ∈ merged, identity? idField m ≠ some key) ∧
      absorb idField key r merged = merged ++ [r] := by
  induction merged with
  | nil => exact .inr ⟨fun _ h => (nomatch h), rfl⟩
  | cons e rest ih =>
    rw [absorb]
    by_cases he : identity? idField e = some key
    · rw [if_pos he]
      exact .inl ⟨[], e, rest, rfl, he, rfl⟩
    · rw [if_neg he]
      rcases ih with ⟨before, m, after, hsplit, hm, habsorb⟩ | ⟨hnone, habsorb⟩
      · exact .inl ⟨e :: before, m, after, by rw [hsplit]; rfl, hm, by rw [habsorb]; rfl⟩
      · exact .inr ⟨List.forall_mem_cons.2 ⟨he, hnone⟩, by rw [habsorb]; rfl⟩

theorem text?_eq_some_iff : text? idField r = some x ↔ r.present idField = some (.str x) := by
  rw [text?]
  cases r.present idField with
  | none => simp
  | some v => cases v <;> simp [Json.text?]

/-- Texts are told apart by what they are printed as. -/
theorem identity?_eq_iff (hm : ∃ y, text? idField m = some y) :
    identity? idField m = some (Json.str x).compact ↔ text? idField m = some x := by
  obtain ⟨y, hy⟩ := hm
  rw [identity?, text?_eq_some_iff.1 hy, hy, Option.map_some, Option.some_inj, Option.some_inj,
    Json.compact_str_inj]

theorem first?_append : first? idField x field (done ++ [r]) =
    (first? idField x field done).or
      (if text? idField r = some x then r.present field else none) := by
  rw [first?, List.filter_append, List.findSome?_append, ← first?]
  by_cases hr : text? idField r = some x
  · cases h : r.present field <;> simp [hr, h]
  · simp [hr]

/-- What is merged of some records: a record for each identity, and in it the first value of every
field. -/
structure Merges (idField : String) (done merged : List Record) : Prop where
  distinct : (merged.map (text? idField)).Nodup
  identified : ∀ m ∈ merged, ∃ x, text? idField m = some x
  complete : ∀ x, (∃ m ∈ merged, text? idField m = some x) ↔ ∃ r ∈ done, text? idField r = some x
  first : ∀ m ∈ merged, ∀ x, text? idField m = some x →
    ∀ field, m.present field = first? idField x field done

theorem first?_append_of_ne (hr : text? idField r ≠ some x) :
    first? idField x field (done ++ [r]) = first? idField x field done := by
  rw [first?_append, if_neg hr, Option.or_none]

theorem exists_text?_append : (∃ m ∈ done ++ [r], text? idField m = some x) ↔
    (∃ m ∈ done, text? idField m = some x) ∨ text? idField r = some x := by
  simp [or_and_right, exists_or]

/-- A record whose identity is there fills what is missing in the one that has it. -/
theorem Merges.fill {before after : List Record}
    (hm : Merges idField done (before ++ m :: after)) (htext : text? idField m = some x)
    (hr : text? idField r = some x) :
    Merges idField (done ++ [r]) (before ++ fill m r :: after) := by
  have hsame : text? idField (Merge.fill m r) = text? idField m := by
    rw [htext, text?_eq_some_iff, present_fill, text?_eq_some_iff.1 htext, Option.some_or]
  have hmap : (before ++ Merge.fill m r :: after).map (text? idField) =
      (before ++ m :: after).map (text? idField) := by
    simp only [List.map_append, List.map_cons, hsame]
  have hmem : ∀ y, (∃ e ∈ before ++ Merge.fill m r :: after, text? idField e = some y) ↔
      ∃ e ∈ before ++ m :: after, text? idField e = some y := fun y => by
    rw [← List.mem_map, hmap, List.mem_map]
  have hmiddle : m ∈ before ++ m :: after := List.mem_append_right _ List.mem_cons_self
  have hothers : ∀ e ∈ before ++ after, text? idField e ≠ some x := by
    have hdistinct := hm.distinct
    rw [List.map_append, List.map_cons, List.nodup_middle, List.nodup_cons, ← List.map_append,
      htext] at hdistinct
    exact fun e he hx => hdistinct.1 (hx ▸ List.mem_map_of_mem he)
  refine ⟨hmap ▸ hm.distinct, fun e he => ?_, fun y => ?_, fun e he y hy field => ?_⟩
  · rcases List.mem_append.1 he with he | he
    · exact hm.identified e (List.mem_append_left _ he)
    · rcases List.mem_cons.1 he with rfl | he
      · exact ⟨x, hsame.trans htext⟩
      · exact hm.identified e (List.mem_append_right _ (List.mem_cons_of_mem _ he))
  · rw [hmem, hm.complete, exists_text?_append, hr]
    refine (or_iff_left_of_imp fun hy => (hm.complete y).1 ?_).symm
    exact ⟨m, hmiddle, htext.trans hy⟩
  · have hcases : e = Merge.fill m r ∨ e ∈ before ++ after := by
      simp only [List.mem_append, List.mem_cons] at he ⊢
      tauto
    rcases hcases with rfl | he
    · obtain rfl := Option.some.inj ((hsame.trans htext).symm.trans hy)
      rw [present_fill, hm.first m hmiddle x htext, first?_append, if_pos hr]
    · have hne : text? idField r ≠ some y := fun hxy => hothers e he (hy.trans (hxy.symm.trans hr))
      have hold : e ∈ before ++ m :: after := by
        simp only [List.mem_append, List.mem_cons] at he ⊢
        tauto
      rw [first?_append_of_ne hne, hm.first e hold y hy]

/-- A record whose identity is new stands as it is. -/
theorem Merges.add (hm : Merges idField done merged) (hr : text? idField r = some x)
    (hnew : ∀ m ∈ merged, text? idField m ≠ some x) :
    Merges idField (done ++ [r]) (merged ++ [r]) := by
  refine ⟨?_, fun e he => ?_, fun y => ?_, fun e he y hy field => ?_⟩
  · rw [List.map_append, List.map_singleton, List.nodup_append]
    refine ⟨hm.distinct, List.nodup_singleton _, fun a ha b hb => ?_⟩
    obtain ⟨m, hmem, rfl⟩ := List.mem_map.1 ha
    rw [List.mem_singleton.1 hb, hr]
    exact hnew m hmem
  · rcases List.mem_append.1 he with he | he
    · exact hm.identified e he
    · exact ⟨x, List.mem_singleton.1 he ▸ hr⟩
  · rw [exists_text?_append, exists_text?_append, hm.complete]
  · rcases List.mem_append.1 he with he | he
    · have hne : text? idField r ≠ some y := fun hxy => hnew e he (hy.trans (hxy.symm.trans hr))
      rw [first?_append_of_ne hne, hm.first e he y hy]
    · obtain rfl := List.mem_singleton.1 he
      have hnone : first? idField y field done = none := by
        rw [first?, List.filter_eq_nil_iff.2, List.findSome?_nil]
        intro d hd hdy
        obtain ⟨m, hmem, hmy⟩ := (hm.complete y).2 ⟨d, hd, of_decide_eq_true hdy⟩
        exact hnew m hmem (hmy.trans (hy.symm.trans hr))
      rw [first?_append, hnone, if_pos hy, Option.none_or]

theorem Merges.step (hm : Merges idField done merged)
    (hr : ∀ v, r.present idField = some v → ∃ x, v = .str x) :
    Merges idField (done ++ [r]) (step idField merged r) := by
  cases hid : r.present idField with
  | none =>
    have htext : text? idField r = none := by rw [text?, hid]; rfl
    have hstep : Merge.step idField merged r = merged := by rw [Merge.step, identity?, hid]; rfl
    have hne : ∀ {x}, text? idField r ≠ some x := fun {x} hx => nomatch htext.symm.trans hx
    rw [hstep]
    refine ⟨hm.distinct, hm.identified, fun x => ?_, fun m hmem x hx field => ?_⟩
    · rw [exists_text?_append, hm.complete, or_iff_left hne]
    · rw [first?_append_of_ne hne, hm.first m hmem x hx]
  | some v =>
    obtain ⟨x, rfl⟩ := hr v hid
    have htext : text? idField r = some x := text?_eq_some_iff.2 hid
    have hstep : Merge.step idField merged r =
        absorb idField (Json.str x).compact r merged := by rw [Merge.step, identity?, hid]; rfl
    rw [hstep]
    rcases absorb_cases idField (Json.str x).compact r merged with
      ⟨before, m, after, rfl, hkey, habsorb⟩ | ⟨hnone, habsorb⟩
    · have hmid := hm.identified m (List.mem_append_right _ List.mem_cons_self)
      rw [habsorb]
      exact hm.fill ((identity?_eq_iff hmid).1 hkey) htext
    · rw [habsorb]
      exact hm.add htext fun m hmem hx =>
        hnone m hmem ((identity?_eq_iff (hm.identified m hmem)).2 hx)

/-- Records are merged as told, if every identity is a text. -/
theorem merges_merge (hr : Textual idField records) :
    Merges idField records (merge idField records) := by
  have hall : ∀ (rest done merged : List Record), Textual idField rest →
      Merges idField done merged →
        Merges idField (done ++ rest) (rest.foldl (Merge.step idField) merged) := by
    intro rest
    induction rest with
    | nil => exact fun done merged _ hm => by simpa using hm
    | cons r rest ih =>
      intro done merged hrest hm
      obtain ⟨hfirst, hothers⟩ := List.forall_mem_cons.1 hrest
      have hnext := ih (done ++ [r]) _ hothers (hm.step hfirst)
      rwa [List.append_assoc] at hnext
  refine hall records [] [] hr ⟨.nil, ?_, fun _ => by simp, ?_⟩
  all_goals exact fun _ h => nomatch h

/-- Every merged record has the identity of one of the records, of whatever kind that is. -/
def Identified (idField : String) (records merged : List Record) : Prop :=
  ∀ m ∈ merged, ∃ r ∈ records, ∃ v, r.present idField = some v ∧ m.present idField = some v

theorem Identified.step (hm : Identified idField records merged) (hr : r ∈ records) :
    Identified idField records (step idField merged r) := by
  cases hid : r.present idField with
  | none =>
    rw [Merge.step, identity?, hid]
    exact hm
  | some v =>
    have hstep : Merge.step idField merged r = absorb idField v.compact r merged := by
      rw [Merge.step, identity?, hid]
      rfl
    rw [hstep]
    rcases absorb_cases idField v.compact r merged with
      ⟨before, e, after, rfl, -, habsorb⟩ | ⟨-, habsorb⟩
    · rw [habsorb]
      intro m hmem
      rcases List.mem_append.1 hmem with hmem | hmem
      · exact hm m (List.mem_append_left _ hmem)
      · rcases List.mem_cons.1 hmem with rfl | hmem
        · obtain ⟨x, hx, w, hw, he⟩ := hm e (List.mem_append_right _ List.mem_cons_self)
          exact ⟨x, hx, w, hw, by rw [present_fill, he, Option.some_or]⟩
        · exact hm m (List.mem_append_right _ (List.mem_cons_of_mem _ hmem))
    · rw [habsorb]
      intro m hmem
      rcases List.mem_append.1 hmem with hmem | hmem
      · exact hm m hmem
      · exact ⟨r, hr, v, hid, List.mem_singleton.1 hmem ▸ hid⟩

theorem identified_merge (idField : String) (records : List Record) :
    Identified idField records (merge idField records) := by
  have hall : ∀ (rest merged : List Record), (∀ r ∈ rest, r ∈ records) →
      Identified idField records merged →
        Identified idField records (rest.foldl (Merge.step idField) merged) := by
    intro rest
    induction rest with
    | nil => exact fun _ _ hm => hm
    | cons r rest ih =>
      intro merged hrest hm
      obtain ⟨hr, hothers⟩ := List.forall_mem_cons.1 hrest
      exact ih _ hothers (hm.step hr)
  exact hall records [] (fun _ hr => hr) fun _ h => nomatch h

theorem mem_identities : x ∈ identities idField records ↔
    ∃ r ∈ records, text? idField r = some x := by
  rw [identities, List.mem_dedup, List.mem_filterMap]

/-- There are as many merged records as identities. -/
theorem Merges.length_eq (hm : Merges idField done merged) :
    merged.length = (identities idField done).length := by
  have hids : ((identities idField done).map some).Nodup :=
    (List.nodup_dedup _).map fun _ _ h => Option.some.inj h
  have hsame : ∀ a, a ∈ merged.map (text? idField) ↔ a ∈ (identities idField done).map some := by
    intro a
    simp only [List.mem_map, mem_identities, ← hm.complete]
    constructor
    · rintro ⟨m, hmem, rfl⟩
      obtain ⟨x, hx⟩ := hm.identified m hmem
      exact ⟨x, ⟨m, hmem, hx⟩, hx.symm⟩
    · rintro ⟨x, ⟨m, hmem, hx⟩, rfl⟩
      exact ⟨m, hmem, hx⟩
  have hperm := (List.perm_ext_iff_of_nodup hm.distinct hids).2 hsame
  simpa using hperm.length_eq

end Merge

end GraphSync
