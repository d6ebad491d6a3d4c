import GraphSync.Json.Basic

/-! Whole numbers as doubles: the closest 53-bit number, and which whole numbers share it. -/
namespace GraphSync.Magnitude

/-- A whole number closest to a fraction, the even one of two. -/
def IsNearest (num den q : Nat) : Prop :=
  2 * ((num : Int) - den * q).natAbs < den ∨
    2 * ((num : Int) - den * q).natAbs = den ∧ q % 2 = 0

/-- A mantissa in units of `2 ^ unit`, brought back to 53 bits. -/
def carried (mantissa : Nat) (unit : Int) : Magnitude :=
  if mantissa = twoTo 53 then ⟨twoTo 52, unit + 1⟩ else ⟨mantissa, unit⟩

/-- A whole number rounded in units of `2 ^ unit`. -/
def roundedIn (n : Nat) (unit : Int) : Magnitude :=
  carried (roundHalfEven (inUnits n 1 unit).1 (inUnits n 1 unit).2) unit

variable {n m num den p q k : Nat}

theorem isNearest_roundHalfEven (hd : 0 < den) : IsNearest num den (roundHalfEven num den) := by
  have hnum : (num : Int) = den * (num / den : Nat) + (num % den : Nat) := by
    exact_mod_cast (Nat.div_add_mod num den).symm
  have hrem : num % den < den := Nat.mod_lt num hd
  simp only [IsNearest, roundHalfEven]
  split
  · have hleft : (num : Int) - den * (num / den : Nat) = (num % den : Nat) := by omega
    rw [hleft]
    omega
  · have hright : (num : Int) - den * ((num / den + 1 : Nat) : Int) = (num % den : Nat) - den := by
      rw [Int.natCast_add, Int.mul_add]
      omega
    rw [hright]
    omega

theorem IsNearest.not_lt (hd : 0 < den) (hp : IsNearest num den p) (hq : IsNearest num den q) :
    ¬ p < q := by
  intro hlt
  have hstep : (den : Int) * (p + 1 : Nat) ≤ den * q :=
    Int.mul_le_mul_of_nonneg_left (by omega) (Int.natCast_nonneg den)
  have hexpand : (den : Int) * (p + 1 : Nat) = den * p + den := by
    rw [Int.natCast_add, Int.mul_add]
    omega
  simp only [IsNearest] at hp hq
  -- the fraction lies halfway between two neighbours, and only one of these is even
  have hnext : (den : Int) * (p + 1 : Nat) = den * q := by omega
  have hsucc : ((p + 1 : Nat) : Int) = q := Int.eq_of_mul_eq_mul_left (by omega) hnext
  omega

theorem IsNearest.unique (hd : 0 < den) (hp : IsNearest num den p) (hq : IsNearest num den q) :
    p = q :=
  Nat.le_antisymm (Nat.le_of_not_lt (hq.not_lt hd hp)) (Nat.le_of_not_lt (hp.not_lt hd hq))

theorem roundHalfEven_eq_iff (hd : 0 < den) :
    roundHalfEven num den = q ↔ IsNearest num den q := by
  constructor
  · rintro rfl
    exact isNearest_roundHalfEven hd
  · exact fun hq => (isNearest_roundHalfEven hd).unique hd hq

/-- Two fractions are rounded alike if one whole number is closest to both. -/
theorem roundHalfEven_eq_roundHalfEven_iff (hd : 0 < den) :
    roundHalfEven n den = roundHalfEven m den ↔ ∃ q, IsNearest n den q ∧ IsNearest m den q := by
  constructor
  · intro h
    exact ⟨_, isNearest_roundHalfEven hd, (roundHalfEven_eq_iff hd).1 h.symm⟩
  · rintro ⟨q, hn, hm⟩
    rw [(roundHalfEven_eq_iff hd).2 hn, (roundHalfEven_eq_iff hd).2 hm]

theorem leadingExponent_one (hn : n ≠ 0) : leadingExponent n 1 = n.log2 := by
  have hone : Nat.log2 1 = 0 := by decide
  have hself : ¬ n * 2 ^ 0 < 1 * 2 ^ n.log2 := by
    rw [Nat.pow_zero, Nat.mul_one, Nat.one_mul]
    exact Nat.not_lt_of_le (Nat.log2_self_le hn)
  have hscaled : inUnits n 1 n.log2 = (n * 2 ^ 0, 1 * 2 ^ n.log2) := by
    rw [inUnits, Int.toNat_natCast, Int.toNat_neg_natCast]
    rfl
  simp only [leadingExponent, hone, Int.natCast_zero, Int.sub_zero, hscaled, if_neg hself]

/-- A whole number is rounded in units in which its highest bit has place 52. -/
theorem ofNat_eq (hn : n ≠ 0) : ofNat n =
    if (roundedIn n (n.log2 - 52)).exponent ≤ highest then some (roundedIn n (n.log2 - 52))
    else none := by
  have hunit : max (leadingExponent n 1 - 52) lowest = n.log2 - 52 := by
    rw [leadingExponent_one hn]
    exact Int.max_eq_left
      (Int.le_trans (by decide) (Int.sub_le_sub_right (Int.natCast_nonneg _) 52))
  simp only [ofNat, nearest, if_neg hn, hunit]
  rfl

theorem exponent_roundedIn_le {unit : Int} : (roundedIn n unit).exponent ≤ unit + 1 := by
  rw [roundedIn, carried]
  split
  · exact Int.le_refl _
  · exact Int.le_of_lt (Int.lt_add_one_of_le (Int.le_refl _))

/-- Numbers of few bits are far below the largest double. -/
theorem ofNat_of_log2_le (hn : n ≠ 0) (hlog : n.log2 ≤ 63) :
    ofNat n = some (roundedIn n (n.log2 - 52)) := by
  have hexponent : (roundedIn n (n.log2 - 52)).exponent ≤ n.log2 - 52 + 1 := exponent_roundedIn_le
  rw [ofNat_eq hn, if_pos]
  exact Int.le_trans hexponent (Int.le_trans (by omega) (by decide : (12 : Int) ≤ highest))

theorem log2_le_of_lt (hn : n < Word.unsignedBound) (hne : n ≠ 0) : n.log2 ≤ 63 :=
  Nat.le_of_lt_succ ((Nat.log2_lt hne).2 hn)

/-- Whole numbers below `2 ^ 64` are far below the largest double. -/
theorem isSome_ofNat (hn : n < Word.unsignedBound) : (ofNat n).isSome = true := by
  by_cases hne : n = 0
  · rw [hne]
    rfl
  · rw [ofNat_of_log2_le hne (log2_le_of_lt hn hne)]
    rfl

theorem roundedIn_natCast : roundedIn n k = carried (roundHalfEven n (twoTo k)) k := by
  have hscaled : inUnits n 1 k = (n * 2 ^ 0, 1 * twoTo k) := by
    rw [inUnits, Int.toNat_natCast, Int.toNat_neg_natCast]
    rfl
  rw [roundedIn, hscaled, Nat.pow_zero, Nat.mul_one, Nat.one_mul]

/-! Numbers from `2 ^ 63 - 512` on are rounded to multiples of 2048, and all others are rounded in
smaller units. -/

/-- Numbers below these are rounded in units of less than 2048. -/
def coarseBound : Nat := twoTo 63 - 512

theorem coarseBound_eq : coarseBound = 9223372036854775296 := rfl

theorem exists_ofNat_of_lt (hn : n < coarseBound) : ∃ x, ofNat n = some x ∧ x.exponent ≤ 10 := by
  by_cases hne : n = 0
  · exact ⟨zero, by rw [hne]; rfl, by decide⟩
  · rw [coarseBound_eq] at hn
    have hlog : n.log2 < 63 := (Nat.log2_lt hne).2 (by omega)
    refine ⟨_, ofNat_of_log2_le hne (by omega), ?_⟩
    by_cases htop : n.log2 = 62
    · have hsmall : roundHalfEven n (twoTo 10) ≠ twoTo 53 := by
        rw [Ne, roundHalfEven_eq_iff (by decide), IsNearest, show twoTo 10 = 2 ^ 10 from rfl,
          show twoTo 53 = 2 ^ 53 from rfl]
        omega
      have hunit : (n.log2 : Int) - 52 = (10 : Nat) := by omega
      rw [hunit, roundedIn_natCast, carried, if_neg hsmall]
      exact Int.le_refl _
    · exact Int.le_trans exponent_roundedIn_le (by omega)

theorem ofNat_of_ge (hlow : coarseBound ≤ n) (hhigh : n < Word.unsignedBound) :
    ofNat n = some (carried (roundHalfEven n 2048) 11) := by
  have hne : n ≠ 0 := by
    rintro rfl
    exact absurd hlow (by decide)
  rw [ofNat_of_log2_le hne (log2_le_of_lt hhigh hne)]
  congr 1
  rw [coarseBound_eq] at hlow
  by_cases hlast : n < 2 ^ 63
  · -- the last numbers before `2 ^ 63` are rounded up to it
    have hlog : n.log2 = 62 := by
      have hle : n.log2 < 63 := (Nat.log2_lt hne).2 hlast
      have hge : 62 ≤ n.log2 := (Nat.le_log2 hne).2 (by omega)
      omega
    have hfine : roundHalfEven n (twoTo 10) = twoTo 53 := by
      rw [roundHalfEven_eq_iff (by decide), IsNearest, show twoTo 10 = 2 ^ 10 from rfl,
        show twoTo 53 = 2 ^ 53 from rfl]
      omega
    have hcoarse : roundHalfEven n 2048 = twoTo 52 := by
      rw [roundHalfEven_eq_iff (by decide), IsNearest, show twoTo 52 = 2 ^ 52 from rfl]
      omega
    have hunit : (n.log2 : Int) - 52 = (10 : Nat) := by omega
    rw [hunit, roundedIn_natCast, hfine, hcoarse]
    decide
  · have hlog : n.log2 = 63 := by
      have hle : n.log2 ≤ 63 := log2_le_of_lt hhigh hne
      have hge : 63 ≤ n.log2 := (Nat.le_log2 hne).2 (by omega)
      omega
    have hunit : (n.log2 : Int) - 52 = (11 : Nat) := by omega
    rw [hunit, roundedIn_natCast]
    rfl

end GraphSync.Magnitude
