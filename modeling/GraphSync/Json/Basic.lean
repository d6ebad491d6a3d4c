import GraphSync.Number.Double
import GraphSync.SortedMap

/-! JSON values, and the two equalities in use: as written, and as property values. -/
namespace GraphSync

namespace Word

/-- Signed words lie below this number, and not below its negative. -/
def signedBound : Int := twoTo 63

/-- Unsigned words lie below this number. -/
def unsignedBound : Nat := twoTo 64

end Word

/-- Reading gives `int` only to whole numbers from `-2 ^ 63` to `2 ^ 64 - 1`. -/
inductive Number where
  | int (value : Int)
  | double (value : Double)
deriving DecidableEq, Repr

namespace Number

/-- The value as a signed 64-bit word. -/
def signed? : Number → Option Int
  | .int v => if -Word.signedBound ≤ v ∧ v < Word.signedBound then some v else none
  | .double _ => none

/-- The value as a count. -/
def count? : Number → Option Nat
  | .int v => if 0 ≤ v then some v.toNat else none
  | .double _ => none

def double? : Number → Option Double
  | .int v => Double.ofInt v
  | .double x => some x

def isZero : Number → Bool
  | .int v => v == 0
  | .double x => x.isZero

/-- Equality as written: `1` is not `1.0`. -/
def same : Number → Number → Bool
  | .int a, .int b => a == b
  | .double a, .double b => a.agrees b
  | _, _ => false

/-- Equality as values: exact on signed words, else after rounding to doubles. -/
def agrees (a b : Number) : Bool :=
  match a.signed?, b.signed? with
  | some x, some y => x == y
  | _, _ =>
    match a.double?, b.double? with
    | some x, some y => x.agrees y
    | _, _ => false

end Number

/-- Objects list their fields in ascending order of name, each name once. -/
inductive Json where
  | null
  | bool (value : Bool)
  | num (value : Number)
  | str (value : String)
  | arr (items : List Json)
  | obj (fields : List (String × Json))

namespace Json

instance : Inhabited Json := ⟨null⟩

def int (n : Int) : Json := num (.int n)

def nat (n : Nat) : Json := int n

/-- An object of the given fields; a later field replaces an earlier one of its name. -/
def ofFields (fields : List (String × Json)) : Json := obj (SortedMap.ofList fields).entries

def ofOption : Option Json → Json
  | some v => v
  | none => null

def isNull : Json → Bool
  | null => true
  | _ => false

def text? : Json → Option String
  | str s => some s
  | _ => none

mutual

/-- Equality as written, but for the sign of a zero. -/
def same : Json → Json → Bool
  | null, null => true
  | bool a, bool b => a == b
  | num a, num b => a.same b
  | str a, str b => a == b
  | arr a, arr b => sameItems a b
  | obj a, obj b => sameFields a b
  | _, _ => false

def sameItems : List Json → List Json → Bool
  | [], [] => true
  | a :: as, b :: bs => a.same b && sameItems as bs
  | _, _ => false

def sameFields : List (String × Json) → List (String × Json) → Bool
  | [], [] => true
  | (k, a) :: as, (l, b) :: bs => k == l && a.same b && sameFields as bs
  | _, _ => false

end

/-- Equality of property values: null equals nothing and numbers compare by value. -/
def agrees : Json → Json → Bool
  | null, _ => false
  | _, null => false
  | num a, num b => a.agrees b
  | a, b => a.same b

theorem agrees_str_iff {v : Json} {x : String} : v.agrees (str x) = true ↔ v = str x := by
  cases v <;> simp [agrees, same]

/-- Signed words are compared as they are. -/
theorem agrees_signed_iff {a b : Int} (ha : -Word.signedBound ≤ a ∧ a < Word.signedBound)
    (hb : -Word.signedBound ≤ b ∧ b < Word.signedBound) :
    (int a).agrees (int b) = true ↔ a = b := by
  have hone : (int a).agrees (int b) = Number.agrees (.int a) (.int b) := rfl
  rw [hone, Number.agrees, Number.signed?, Number.signed?, if_pos ha, if_pos hb]
  exact beq_iff_eq

end Json

end GraphSync
