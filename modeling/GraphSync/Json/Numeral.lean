import GraphSync.Json.Basic

/-!
Value of a numeral. Digits are gathered in a 64-bit word for as long as it holds them; the word
and a power of ten are then combined in double arithmetic, so a long numeral may differ in the
last place from its exact value.
-/
namespace GraphSync

/-- The parts of a numeral, as digit values. -/
structure Numeral where
  negative : Bool
  whole : List Nat
  places : Option (List Nat)
  power : Option (Bool × List Nat)

namespace Numeral

/-- Exponents lie below this number. -/
def powerBound : Nat := twoTo 31

/-- Appends digits while the word holds them; gives the word and the digits left over. -/
def gather (word : Nat) : List Nat → Nat × List Nat
  | [] => (word, [])
  | d :: rest =>
    if word * 10 + d < Word.unsignedBound then gather (word * 10 + d) rest else (word, d :: rest)

/-- The exponent digits as a number, absent past 31 bits. -/
def powerOf (digits : List Nat) : Option Nat :=
  digits.foldl (fun n d => n.bind fun n =>
    if n * 10 + d < powerBound then some (n * 10 + d) else none) (some 0)

/-- The double closest to a power of ten. -/
def powerOfTen (n : Nat) : Magnitude := (Magnitude.ofNat (tenTo n)).getD .zero

/-- `word · 10 ^ power` through doubles; negative powers divide in steps of at most `10 ^ 308`. -/
def scale (word : Nat) (power : Int) : Option Magnitude :=
  match Magnitude.ofNat word with
  | none => none
  | some x =>
    if x.isZero then some .zero
    else if 0 ≤ power then
      if power ≤ 308 then x.mul (powerOfTen power.toNat) else none
    else if -308 ≤ power then x.div (powerOfTen (-power).toNat)
    else if -616 ≤ power then
      (x.div (powerOfTen 308)).bind fun y => y.div (powerOfTen (-power - 308).toNat)
    else some .zero

/-- The number meant, or none if it lies beyond the doubles. -/
def number? (n : Numeral) : Option Number :=
  let (word, dropped) := gather 0 n.whole
  match n.places, n.power, dropped with
  | none, none, [] =>
    if !n.negative then some (.int word)
    else if word = 0 ∨ Word.signedBound < word then
      (Magnitude.ofNat word).map fun x => .double ⟨true, x⟩
    else some (.int (-word))
  | _, _, _ =>
    let places := n.places.getD []
    let (word, unread) := gather word places
    let shift : Int := dropped.length - (places.length - unread.length : Nat)
    match n.power with
    | none => (scale word shift).map fun x => .double ⟨n.negative, x⟩
    | some (below, digits) =>
      match powerOf digits with
      | some p =>
        (scale word (if below then shift - p else shift + p)).map fun x => .double ⟨n.negative, x⟩
      | none =>
        if word ≠ 0 ∧ !below then none else some (.double ⟨n.negative, .zero⟩)

end Numeral

end GraphSync
