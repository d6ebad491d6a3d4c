/-! Doubles as exact dyadic numbers, and rounding to the nearest of them. -/
namespace GraphSync

def twoTo (n : Nat) : Nat := Nat.pow 2 n

def tenTo (n : Nat) : Nat := Nat.pow 10 n

/-- The number `mantissa · 2 ^ exponent`. -/
structure Magnitude where
  mantissa : Nat
  exponent : Int
deriving DecidableEq, Repr

namespace Magnitude

/-- The exponent of the numbers closest to zero. -/
def lowest : Int := -1074

/-- The exponent of the largest numbers. -/
def highest : Int := 971

def zero : Magnitude := ⟨0, lowest⟩

def isZero (x : Magnitude) : Bool := x.mantissa == 0

/-- The whole number closest to `num / den`, the even one of two. -/
def roundHalfEven (num den : Nat) : Nat :=
  let quotient := num / den
  let excess := 2 * (num % den)
  if excess < den ∨ (excess = den ∧ quotient % 2 = 0) then quotient else quotient + 1

/-- `num / den` in units of `2 ^ unit`, as a fraction. -/
def inUnits (num den : Nat) (unit : Int) : Nat × Nat :=
  (num * twoTo (-unit).toNat, den * twoTo unit.toNat)

/-- The exponent of the highest bit of `num / den`. -/
def leadingExponent (num den : Nat) : Int :=
  let estimate : Int := num.log2 - den.log2
  let scaled := inUnits num den estimate
  if scaled.1 < scaled.2 then estimate - 1 else estimate

/-- The 53-bit number closest to `num / den`, absent past the largest one. -/
def nearest (num den : Nat) : Option Magnitude :=
  if num = 0 then some zero
  else
    let unit := max (leadingExponent num den - 52) lowest
    let scaled := inUnits num den unit
    let mantissa := roundHalfEven scaled.1 scaled.2
    let rounded := if mantissa = twoTo 53 then ⟨twoTo 52, unit + 1⟩ else ⟨mantissa, unit⟩
    if rounded.exponent ≤ highest then some rounded else none

def ofNat (n : Nat) : Option Magnitude := nearest n 1

def mul (x y : Magnitude) : Option Magnitude :=
  let exponent := x.exponent + y.exponent
  nearest (x.mantissa * y.mantissa * twoTo exponent.toNat) (twoTo (-exponent).toNat)

def div (x y : Magnitude) : Option Magnitude :=
  let exponent := x.exponent - y.exponent
  nearest (x.mantissa * twoTo exponent.toNat) (y.mantissa * twoTo (-exponent).toNat)

end Magnitude

/-- A finite double; both zeros are values. -/
structure Double where
  negative : Bool
  magnitude : Magnitude
deriving DecidableEq, Repr

namespace Double

def isZero (x : Double) : Bool := x.magnitude.isZero

/-- Equality as numbers: the two zeros agree. -/
def agrees (x y : Double) : Bool := x == y || (x.isZero && y.isZero)

/-- The double closest to a whole number, if one is that large. -/
def ofInt (n : Int) : Option Double := (Magnitude.ofNat n.natAbs).map (⟨n < 0, ·⟩)

end Double

end GraphSync
