import GraphSync.Number.Double

/-! The fewest decimal digits that read back as a given double, and their layout. -/
namespace GraphSync.Shortest

/-- The number `digits · 10 ^ exponent`. -/
structure Decimal where
  digits : Nat
  exponent : Int
deriving DecidableEq, Repr

/-- The numbers that round to a given one, in quarters of its last place. -/
structure Interval where
  low : Nat
  value : Nat
  high : Nat
  closed : Bool
  unit : Int

/-- Below a power of two the numbers lie half as far apart. -/
def interval (x : Magnitude) : Interval :=
  let low := if x.mantissa = twoTo 52 ∧ Magnitude.lowest < x.exponent then 1 else 2
  ⟨4 * x.mantissa - low, 4 * x.mantissa, 4 * x.mantissa + 2, x.mantissa % 2 == 0, x.exponent - 2⟩

/-- The closest multiple of `10 ^ exponent` within an interval, the even one of two. -/
def onGrid (i : Interval) (exponent : Int) : Option Decimal :=
  let grid := tenTo exponent.toNat * twoTo (-i.unit).toNat
  let scale := tenTo (-exponent).toNat * twoTo i.unit.toNat
  let within (d : Nat) : Bool :=
    if i.closed then i.low * scale ≤ d * grid && d * grid ≤ i.high * scale
    else i.low * scale < d * grid && d * grid < i.high * scale
  let below := i.value * scale / grid
  let rest := 2 * (i.value * scale % grid)
  let lower := rest < grid || (rest == grid && below % 2 == 0)
  let first := if lower then below else below + 1
  let second := if lower then below + 1 else below
  if within first then some ⟨first, exponent⟩
  else if within second then some ⟨second, exponent⟩
  else none

/-- A decimal exponent above that of the first digit. -/
def ceiling (x : Magnitude) : Int := (x.mantissa.log2 + x.exponent + 1) * 30103 / 100000 + 1

/-- The coarsest decimal grid that has a point in the interval decides; seventeen digits suffice. -/
def decimal (x : Magnitude) : Decimal :=
  let i := interval x
  ((List.range 20).findSome? fun (step : Nat) => onGrid i (ceiling x - step)).getD ⟨0, 0⟩

/-- Decimal exponents of a first digit that are written without an exponent part. -/
def positional : Int × Int := (-5, 15)

def zeros (n : Nat) : String := "".pushn '0' n

/-- Digits with a point after the first `n`; whole numbers end in a zero place. -/
def splitDigits (digits : String) (n : Nat) : String :=
  let whole := (digits.toList.take n)
  let rest := (digits.toList.drop n)
  String.ofList whole ++ "." ++ (if rest.isEmpty then "0" else String.ofList rest)

def scientific (digits : String) (leading : Int) : String :=
  let lead := if digits.length = 1 then digits else splitDigits digits 1
  lead ++ "e" ++ (if leading < 0 then "-" else "+") ++ toString leading.natAbs

/-- Text of a positive number. -/
def magnitudeText (x : Magnitude) : String :=
  let d := decimal x
  let digits := toString d.digits
  let leading := (digits.length : Int) - 1 + d.exponent
  if leading < positional.1 ∨ positional.2 < leading then scientific digits leading
  else if leading < 0 then "0." ++ zeros (-leading - 1).toNat ++ digits
  else splitDigits (digits ++ zeros d.exponent.toNat) (leading.toNat + 1)

/-- Text of a double, zero with its sign and one decimal place. -/
def text (x : Double) : String :=
  (if x.negative then "-" else "") ++
    (if x.isZero then "0.0" else magnitudeText x.magnitude)

end GraphSync.Shortest
