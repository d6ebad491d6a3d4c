import GraphSync.Json.Numeral
import GraphSync.Proofs.Rounding
import GraphSync.Record

/-! Equality of values: it is symmetric, and a value that a document can hold agrees with itself
unless it is null. -/
namespace GraphSync

theorem Double.agrees_self (x : Double) : x.agrees x = true := by
  simp [agrees]

theorem Number.same_self (n : Number) : n.same n = true := by
  cases n with
  | int v => exact beq_self_eq_true v
  | double x => exact x.agrees_self

theorem Double.agrees_comm (x y : Double) : x.agrees y = y.agrees x := by
  rw [agrees, agrees, BEq.comm, Bool.and_comm]

theorem Number.same_comm (a b : Number) : a.same b = b.same a := by
  cases a with
  | int x =>
    cases b with
    | int y => exact BEq.comm
    | double y => rfl
  | double x =>
    cases b with
    | int y => rfl
    | double y => exact x.agrees_comm y

theorem Number.agrees_comm (a b : Number) : a.agrees b = b.agrees a := by
  rw [agrees, agrees]
  cases a.signed? <;> cases b.signed? <;> cases a.double? <;> cases b.double? <;>
    first
    | rfl
    | exact BEq.comm
    | exact Double.agrees_comm _ _

namespace Json

mutual

theorem same_comm : (a b : Json) → a.same b = b.same a
  | null, b => by cases b <;> rfl
  | bool x, b => by
    cases b with
    | bool y => exact BEq.comm
    | _ => rfl
  | num x, b => by
    cases b with
    | num y => exact x.same_comm y
    | _ => rfl
  | str x, b => by
    cases b with
    | str y => exact BEq.comm
    | _ => rfl
  | arr items, b => by
    cases b with
    | arr others => exact sameItems_comm items others
    | _ => rfl
  | obj fields, b => by
    cases b with
    | obj others => exact sameFields_comm fields others
    | _ => rfl

theorem sameItems_comm : (as bs : List Json) → sameItems as bs = sameItems bs as
  | [], bs => by cases bs <;> rfl
  | a :: as, bs => by
    cases bs with
    | nil => rfl
    | cons b bs => rw [sameItems, sameItems, same_comm a b, sameItems_comm as bs]

theorem sameFields_comm : (as bs : List (String × Json)) → sameFields as bs = sameFields bs as
  | [], bs => by cases bs <;> rfl
  | (k, a) :: as, bs => by
    cases bs with
    | nil => rfl
    | cons b bs =>
      obtain ⟨l, b⟩ := b
      rw [sameFields, sameFields, same_comm a b, sameFields_comm as bs, BEq.comm (a := k)]

end

/-- It makes no difference which of two property values is compared with the other. -/
theorem agrees_comm (a b : Json) : a.agrees b = b.agrees a := by
  cases a with
  | null => cases b <;> rfl
  | num x =>
    cases b with
    | num y => exact x.agrees_comm y
    | _ => rfl
  | bool x =>
    cases b with
    | bool y => exact same_comm (bool x) (bool y)
    | _ => rfl
  | str x =>
    cases b with
    | str y => exact same_comm (str x) (str y)
    | _ => rfl
  | arr items =>
    cases b with
    | arr others => exact same_comm (arr items) (arr others)
    | _ => rfl
  | obj fields =>
    cases b with
    | obj others => exact same_comm (obj fields) (obj others)
    | _ => rfl

mutual

theorem same_self : (v : Json) → v.same v = true
  | null => rfl
  | bool b => beq_self_eq_true b
  | num n => n.same_self
  | str s => beq_self_eq_true s
  | arr items => sameItems_self items
  | obj fields => sameFields_self fields

theorem sameItems_self : (items : List Json) → sameItems items items = true
  | [] => rfl
  | v :: rest => by rw [sameItems, same_self v, sameItems_self rest, Bool.and_self]

theorem sameFields_self : (fields : List (String × Json)) → sameFields fields fields = true
  | [] => rfl
  | (k, v) :: rest => by
    rw [sameFields, beq_self_eq_true, same_self v, sameFields_self rest, Bool.and_self,
      Bool.and_self]

end

/-- A whole number lies in the range of the signed or of the unsigned words. -/
def InRange : Json → Prop
  | num (.int v) => -Word.signedBound ≤ v ∧ v < Word.unsignedBound
  | _ => True

instance : DecidablePred InRange := fun v => by
  unfold InRange
  split <;> infer_instance

theorem inRange_of_signed {n : Int} (hn : -Word.signedBound ≤ n ∧ n < Word.signedBound) :
    (int n).InRange :=
  ⟨hn.1, Int.lt_trans hn.2 (by decide)⟩

/-- Any value but null agrees with itself, as long as doubles reach as far as its number. -/
theorem agrees_self {v : Json} (hv : v.InRange) (hnull : v.isNull = false) :
    v.agrees v = true := by
  cases v with
  | null => cases hnull
  | bool b => exact same_self (bool b)
  | str s => exact same_self (str s)
  | arr items => exact same_self (arr items)
  | obj fields => exact same_self (obj fields)
  | num n =>
    cases n with
    | double x => exact x.agrees_self
    | int v =>
      obtain ⟨hlow, hhigh⟩ := hv
      simp only [agrees, Number.agrees]
      by_cases hsigned : -Word.signedBound ≤ v ∧ v < Word.signedBound
      · simp [Number.signed?, hsigned]
      · have hbound : Word.signedBound < (Word.unsignedBound : Int) := by decide
        have habs : v.natAbs < Word.unsignedBound := by omega
        obtain ⟨m, hm⟩ := Option.isSome_iff_exists.1 (Magnitude.isSome_ofNat habs)
        simp [Number.signed?, hsigned, Number.double?, Double.ofInt, hm, Double.agrees_self]

end Json

namespace Numeral

variable {word : Nat}

theorem gather_lt (hw : word < Word.unsignedBound) (digits : List Nat) :
    (gather word digits).1 < Word.unsignedBound := by
  induction digits generalizing word with
  | nil => exact hw
  | cons d rest ih =>
    rw [gather]
    split
    · exact ih ‹_›
    · exact hw

/-- Every number that is read is in range. -/
theorem inRange_of_number? {n : Numeral} {m : Number} (hm : n.number? = some m) :
    (Json.num m).InRange := by
  have hword : (gather 0 n.whole).1 < Word.unsignedBound := gather_lt (by decide) n.whole
  have hdouble : ∀ {x : Option Magnitude} {negative : Bool},
      (x.map fun x => Number.double ⟨negative, x⟩) = some m → (Json.num m).InRange := by
    intro x negative hx
    obtain ⟨y, -, rfl⟩ := Option.map_eq_some_iff.1 hx
    trivial
  simp only [number?] at hm
  split at hm
  · have hlow : -Word.signedBound ≤ 0 := by decide
    split at hm
    · cases hm
      exact ⟨by omega, by omega⟩
    · split at hm
      · exact hdouble hm
      · next hsmall =>
        cases hm
        rw [not_or] at hsmall
        exact ⟨by omega, by omega⟩
  · split at hm
    · exact hdouble hm
    · split at hm
      · exact hdouble hm
      · split at hm
        · cases hm
        · cases hm
          trivial

end Numeral

/-- Every value of a record is in range. -/
def Record.InRange (r : Record) : Prop := ∀ name v, r.find? name = some v → v.InRange

instance (r : Record) : Decidable r.InRange :=
  decidable_of_iff (∀ x ∈ r.entries, x.2.InRange)
    ⟨fun h name v hv => h (name, v) (SortedMap.find?_eq_some_iff.1 hv),
      fun h x hx => h x.1 x.2 (SortedMap.find?_eq_some_iff.2 hx)⟩

/-- A value that is present in a record in range agrees with itself. -/
theorem Record.agrees_self_of_present {r : Record} {name : String} {v : Json} (hr : r.InRange)
    (hp : r.present name = some v) : v.agrees v = true := by
  obtain ⟨hfind, hnull⟩ := Json.present_eq_some_iff.1 hp
  exact Json.agrees_self (hr name v hfind) hnull

/-- The same value under each of some names. -/
def Record.filled (names : List String) (v : Json) : Record := SortedMap.ofList (names.map (·, v))

theorem Record.find?_filled {names : List String} {v : Json} {name : String} (hm : name ∈ names) :
    (Record.filled names v).find? name = some v := by
  have hall : ∀ (names : List String) (r : Record), (name ∈ names ∨ r.find? name = some v) →
      (r.insertAll (names.map (·, v))).find? name = some v := by
    intro names
    induction names with
    | nil => exact fun r h => h.resolve_left List.not_mem_nil
    | cons other rest ih =>
      intro r h
      refine ih (r.insert other v) ?_
      rw [SortedMap.find?_insert]
      by_cases he : name = other
      · exact .inr (if_pos he)
      · rw [if_neg he]
        exact h.imp (fun h => (List.mem_cons.1 h).resolve_left he) id
  exact hall names .empty (.inl hm)

end GraphSync
