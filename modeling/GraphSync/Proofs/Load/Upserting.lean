import GraphSync.Proofs.Graph.Step

/-! Writes to keyed items, each found or created and then updated: writing them again. -/
namespace GraphSync

/-- Writes that find the item of a key, or create one, and then update it. What a write finds it
still finds after any other write. Of equal updates the last one tells: it covers the earlier ones,
whatever comes between. -/
structure Upserting (σ ω α : Type) where
  find : σ → ω → Option Nat
  item : σ → Nat → Option α
  /-- All of a state but its items. -/
  rest : σ → σ
  update : ω → α → α
  put : Int → σ → ω → σ
  /-- The states and the writes that this is about. -/
  Valid : σ → Prop
  Fits : ω → Prop
  valid_put : ∀ now {s w}, Valid s → Fits w → Valid (put now s w)
  ext : ∀ {s t}, (∀ key, item s key = item t key) → rest s = rest t → s = t
  exists_item : ∀ {s w key}, find s w = some key → ∃ a, item s key = some a
  found : ∀ now {s w key a}, find s w = some key → item s key = some a →
    rest (put now s w) = rest s ∧
      ∀ k, item (put now s w) k = if k = key then some (update w a) else item s k
  absent : ∀ now {s w}, Valid s → Fits w → find s w = none → ∃ key a, item s key = none ∧
    find (put now s w) w = some key ∧
      ∀ k, item (put now s w) k = if k = key then some (update w a) else item s k
  stable : ∀ now {s v w key}, Valid s → Fits v → find s w = some key →
    find (put now s v) w = some key
  update_twice : ∀ w a, update w (update w a) = update w a
  update_covers : ∀ w v a, update w (update v (update w a)) = update w (update v a)

namespace Upserting

variable {σ ω α : Type} (S : Upserting σ ω α) {s t : σ} {ws done : List ω}
  {w : ω} {key : Nat} {a : α}

/-- The writes that go to the item of a key. -/
def picking (ws : List ω) (s : σ) (key : Nat) : List ω :=
  ws.filter fun w => S.find s w = some key

/-- What writes make of an item that all of them go to. -/
def updateAll (ws : List ω) (a : α) : α := ws.foldl (fun a w => S.update w a) a

/-- Every write finds its item, and every item is what the writes to it make of it. -/
structure Absorbs (ws : List ω) (s : σ) : Prop where
  found : ∀ w ∈ ws, ∃ key, S.find s w = some key
  settled : ∀ key a, S.item s key = some a → S.updateAll (S.picking ws s key) a = a

variable {S}

/-- An update that comes again after others makes its first coming idle. -/
theorem update_updateAll_update (w : ω) (vs : List ω) (a : α) :
    S.update w (S.updateAll vs (S.update w a)) = S.update w (S.updateAll vs a) := by
  induction vs generalizing a with
  | nil => exact S.update_twice w a
  | cons v vs ih =>
    calc S.update w (S.updateAll vs (S.update v (S.update w a)))
        = S.update w (S.updateAll vs (S.update w (S.update v (S.update w a)))) := (ih _).symm
      _ = S.update w (S.updateAll vs (S.update w (S.update v a))) := by rw [S.update_covers]
      _ = S.update w (S.updateAll vs (S.update v a)) := ih _

theorem picking_congr (h : ∀ w ∈ ws, S.find t w = S.find s w) (key : Nat) :
    S.picking ws t key = S.picking ws s key :=
  List.filter_congr fun w hw => by rw [h w hw]

theorem Absorbs.congr (hs : S.Absorbs ws s) (hfind : S.find t = S.find s)
    (hitem : S.item t = S.item s) : S.Absorbs ws t := by
  refine ⟨fun w hw => hfind ▸ hs.found w hw, fun key a ha => ?_⟩
  rw [picking_congr (s := s) fun w _ => by rw [hfind]]
  exact hs.settled key a (hitem ▸ ha)

/-- A further write to an item settles it anew, whatever was written to it before. -/
theorem Absorbs.put (now : Int) (hs : S.Absorbs done s) (hvalid : S.Valid s) (hfits : S.Fits w) :
    S.Absorbs (done ++ [w]) (S.put now s w) := by
  have hkeep : ∀ v ∈ done, S.find (S.put now s w) v = S.find s v := by
    intro v hv
    obtain ⟨key, hkey⟩ := hs.found v hv
    rw [hkey, S.stable now hvalid hfits hkey]
  -- the item that the write goes to, new or not, was what the writes before it made of it
  have hwrite : ∃ key a, S.find (S.put now s w) w = some key ∧
      S.updateAll (S.picking done s key) a = a ∧
        ∀ k, S.item (S.put now s w) k = if k = key then some (S.update w a) else S.item s k := by
    cases hf : S.find s w with
    | some key =>
      obtain ⟨a, ha⟩ := S.exists_item hf
      exact ⟨key, a, S.stable now hvalid hfits hf, hs.settled key a ha, (S.found now hf ha).2⟩
    | none =>
      obtain ⟨key, a, hnone, hkey, hitem⟩ := S.absent now hvalid hfits hf
      refine ⟨key, a, hkey, ?_, hitem⟩
      have hempty : S.picking done s key = [] := by
        refine List.filter_eq_nil_iff.2 fun v _ hv => ?_
        obtain ⟨b, hb⟩ := S.exists_item (of_decide_eq_true hv)
        exact nomatch hb.symm.trans hnone
      rw [hempty]
      rfl
  obtain ⟨place, a, hplace, hbefore, hitem⟩ := hwrite
  refine ⟨fun v hv => ?_, fun key b hb => ?_⟩
  · rcases List.mem_append.1 hv with hv | hv
    · rw [hkeep v hv]
      exact hs.found v hv
    · rw [List.mem_singleton.1 hv]
      exact ⟨place, hplace⟩
  · have hpicking : S.picking (done ++ [w]) (S.put now s w) key =
        S.picking done s key ++ if place = key then [w] else [] := by
      have hlast : S.picking [w] (S.put now s w) key = if place = key then [w] else [] := by
        by_cases h : place = key <;> simp [picking, hplace, h]
      rw [← hlast, ← picking_congr hkeep]
      exact List.filter_append _ _
    rw [hitem] at hb
    rw [hpicking]
    by_cases hk : key = place
    · rw [if_pos hk] at hb
      obtain rfl := Option.some.inj hb
      rw [if_pos hk.symm, updateAll, List.foldl_append, hk]
      calc S.update w (S.updateAll (S.picking done s place) (S.update w a))
          = S.update w (S.updateAll (S.picking done s place) a) := update_updateAll_update _ _ _
        _ = S.update w a := by rw [hbefore]
    · rw [if_neg hk] at hb
      rw [if_neg (Ne.symm hk), List.append_nil]
      exact hs.settled key b hb

theorem absorbs_foldl_append (now : Int) (hs : S.Absorbs done s) (hvalid : S.Valid s)
    (hfits : ∀ w ∈ ws, S.Fits w) : S.Absorbs (done ++ ws) (ws.foldl (S.put now) s) := by
  induction ws generalizing done s with
  | nil => simpa using hs
  | cons w ws ih =>
    obtain ⟨hw, hrest⟩ := List.forall_mem_cons.1 hfits
    have hnext := ih (hs.put now hvalid hw) (S.valid_put now hvalid hw) hrest
    rwa [List.append_assoc] at hnext

/-- Writes leave a state that absorbs them. -/
theorem absorbs_foldl (now : Int) (hvalid : S.Valid s) (hfits : ∀ w ∈ ws, S.Fits w) :
    S.Absorbs ws (ws.foldl (S.put now) s) :=
  have hnone : S.Absorbs [] s := ⟨fun _ hw => (nomatch hw), fun _ _ _ => rfl⟩
  absorbs_foldl_append now hnone hvalid hfits

/-- Writes that find their items change nothing but these, each by the writes that go to it. -/
theorem foldl_of_found (now : Int) (hvalid : S.Valid s) (hfits : ∀ w ∈ ws, S.Fits w)
    (hfound : ∀ w ∈ ws, ∃ key, S.find s w = some key) :
    S.rest (ws.foldl (S.put now) s) = S.rest s ∧ ∀ key, S.item (ws.foldl (S.put now) s) key =
      (S.item s key).map (S.updateAll (S.picking ws s key)) := by
  induction ws generalizing s with
  | nil => exact ⟨rfl, fun key => by cases h : S.item s key <;> simp [h, picking, updateAll]⟩
  | cons w ws ih =>
    obtain ⟨hw, hrest⟩ := List.forall_mem_cons.1 hfits
    obtain ⟨⟨place, hplace⟩, hothers⟩ := List.forall_mem_cons.1 hfound
    obtain ⟨a, ha⟩ := S.exists_item hplace
    obtain ⟨hsame, hitem⟩ := S.found now hplace ha
    have hkeep : ∀ v ∈ ws, S.find (S.put now s w) v = S.find s v := by
      intro v hv
      obtain ⟨key, hkey⟩ := hothers v hv
      rw [hkey, S.stable now hvalid hw hkey]
    obtain ⟨hlast, hitems⟩ := ih (S.valid_put now hvalid hw) hrest fun v hv => by
      rw [hkeep v hv]
      exact hothers v hv
    refine ⟨hlast.trans hsame, fun key => ?_⟩
    rw [List.foldl_cons, hitems key, picking_congr hkeep, hitem]
    by_cases hk : key = place
    · subst hk
      simp [picking, hplace, ha, updateAll]
    · simp [picking, hplace, hk, Ne.symm hk]

/-- A state that absorbs writes is not changed by them, at any time. -/
theorem Absorbs.foldl_eq (later : Int) (hs : S.Absorbs ws s) (hvalid : S.Valid s)
    (hfits : ∀ w ∈ ws, S.Fits w) : ws.foldl (S.put later) s = s := by
  obtain ⟨hsame, hitems⟩ := foldl_of_found later hvalid hfits hs.found
  refine S.ext (fun key => ?_) hsame
  rw [hitems]
  cases ha : S.item s key with
  | none => rfl
  | some a => rw [Option.map_some, hs.settled key a ha]

end Upserting

end GraphSync
