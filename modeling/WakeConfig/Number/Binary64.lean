/-!
# Rounding to binary64

The double nearest to an exact number, computed in natural numbers. A finite magnitude is
`mantissa * 2 ^ exponent`; a tie goes to the even mantissa, and what rounds to `2 ^ 1024` or more
is infinite.
-/

namespace WakeConfig

/-- A power of two. -/
def powerOfTwo (k : Nat) : Nat := Nat.pow 2 k

/-- A power of ten. -/
def powerOfTen (k : Nat) : Nat := Nat.pow 10 k

/-- A finite magnitude, `mantissa * 2 ^ exponent`. -/
structure Magnitude where
  mantissa : Nat
  exponent : Int
  deriving Repr, DecidableEq

/-- The largest whole number that is not above a magnitude. -/
def Magnitude.floor (d : Magnitude) : Nat :=
  if 0 ≤ d.exponent then d.mantissa * powerOfTwo d.exponent.toNat
  else d.mantissa / powerOfTwo (-d.exponent).toNat

/-- The whole number that a magnitude is, if it is one. -/
def Magnitude.whole? (d : Magnitude) : Option Nat :=
  if 0 ≤ d.exponent then some (d.mantissa * powerOfTwo d.exponent.toNat)
  else
    let unit := powerOfTwo (-d.exponent).toNat
    if d.mantissa % unit = 0 then some (d.mantissa / unit) else none

namespace Binary64

/-- `num / den` rounded to a whole number, a tie to the even one. -/
def roundEven (num den : Nat) : Nat :=
  let q := num / den
  let r := num % den
  if 2 * r < den then q
  else if den < 2 * r then q + 1
  else if q % 2 = 0 then q else q + 1

/-- The largest whole number below which every whole number is a double. -/
def maxSafe : Nat := 9007199254740991

/-- The first magnitude that is infinite. -/
def bound : Nat := powerOfTwo 1024

/-- The mantissa of a power of two, the smallest with 53 bits. -/
def leastMantissa : Nat := powerOfTwo 52

/-- The exponent of the smallest doubles. -/
def leastExponent : Int := -1074

/-- The power of two between neighbouring doubles at a whole number. -/
def unitAt (n : Nat) : Nat := powerOfTwo (n.log2 - 52)

/-- A whole number rounded to 53 significant bits. -/
def roundNat (n : Nat) : Nat := roundEven n (unitAt n) * unitAt n

/-- A whole number with a sign rounded to 53 significant bits. -/
def roundInt (n : Int) : Int :=
  if n < 0 then -(roundNat n.natAbs : Int) else roundNat n.natAbs

/-- The double nearest to a whole number, or nothing if that is infinite. -/
def nearest? (n : Nat) : Option Nat :=
  if roundNat n < bound then some (roundNat n) else none

/-- The exponent of the leading bit of `num / den`. -/
def leadingBit (num den : Nat) : Int :=
  let k : Int := num.log2 - den.log2
  let reached :=
    if 0 ≤ k then den * powerOfTwo k.toNat ≤ num else den ≤ num * powerOfTwo (-k).toNat
  if reached then k else k - 1

/-- A magnitude whose mantissa may have been rounded up to 54 bits, with one of 53. -/
def renormalized (mantissa : Nat) (exponent : Int) : Magnitude :=
  if mantissa = 2 * leastMantissa then ⟨leastMantissa, exponent + 1⟩ else ⟨mantissa, exponent⟩

/-- The double nearest to `num / den`, without an upper limit. -/
def roundRatio (num den : Nat) : Magnitude :=
  if num = 0 then ⟨0, 0⟩
  else
    let e := max (leadingBit num den - 52) leastExponent
    if 0 ≤ e then renormalized (roundEven num (den * powerOfTwo e.toNat)) e
    else renormalized (roundEven (num * powerOfTwo (-e).toNat) den) e

/-- The double nearest to `digits * 10 ^ exponent`, or nothing if that is infinite. A number whose
leading digit stands far outside the range of doubles is decided without computing its power. -/
def nearestDecimal? (digits : Nat) (exponent : Int) : Option Magnitude :=
  let magnitude : Int := (Nat.toDigits 10 digits).length + exponent
  if digits = 0 ∨ magnitude < -400 then some ⟨0, 0⟩
  else if 400 < magnitude then none
  else
    let d := if 0 ≤ exponent then roundRatio (digits * powerOfTen exponent.toNat) 1
      else roundRatio digits (powerOfTen (-exponent).toNat)
    if 0 ≤ d.exponent ∧ bound ≤ d.mantissa * powerOfTwo d.exponent.toNat then none else some d

theorem powerOfTwo_le {j k : Nat} (h : j ≤ k) : powerOfTwo j ≤ powerOfTwo k :=
  Nat.pow_le_pow_right (by decide) h

/-- The safe range is finite. -/
theorem maxSafe_lt_bound : maxSafe < bound := by
  have hpos : 0 < powerOfTwo 53 := Nat.two_pow_pos 53
  have hle : powerOfTwo 53 ≤ bound := powerOfTwo_le (by decide)
  exact Nat.lt_of_lt_of_le (Nat.sub_lt hpos Nat.one_pos) hle

theorem roundEven_one (n : Nat) : roundEven n 1 = n := by
  simp [roundEven, Nat.mod_one]

/-- Below `2 ^ 53` every whole number is a double. -/
theorem roundNat_of_le {n : Nat} (h : n ≤ maxSafe) : roundNat n = n := by
  have hu : unitAt n = 1 := by
    have : n.log2 ≤ 52 := by
      by_cases hn : n = 0
      · subst hn; decide
      · exact Nat.le_of_lt_succ ((Nat.log2_lt hn).2 (by simp [maxSafe] at h; omega))
    simp [unitAt, powerOfTwo, Nat.sub_eq_zero_of_le this]
  simp [roundNat, hu, roundEven_one]

/-- A number below `2 ^ 53` is its own nearest double. -/
theorem nearest?_of_le {n : Nat} (h : n ≤ maxSafe) : nearest? n = some n := by
  rw [nearest?, roundNat_of_le h, if_pos (Nat.lt_of_le_of_lt h maxSafe_lt_bound)]

theorem eq_of_nearest? {n k : Nat} (h : nearest? n = some k) : k = roundNat n := by
  unfold nearest? at h
  split at h
  · exact (Option.some.inj h).symm
  · cases h

theorem div_le_roundEven (num den : Nat) : num / den ≤ roundEven num den := by
  unfold roundEven
  dsimp only
  split
  · exact Nat.le_refl _
  · split
    · exact Nat.le_succ _
    · split
      · exact Nat.le_refl _
      · exact Nat.le_succ _

/-- From `2 ^ 53` on a whole number is not rounded below `2 ^ 53`. -/
theorem lt_roundNat {n : Nat} (h : maxSafe < n) : maxSafe < roundNat n := by
  have hsafe : maxSafe = 2 ^ 53 - 1 := rfl
  have hn : n ≠ 0 := by omega
  have hlog : 53 ≤ n.log2 := (Nat.le_log2 hn).2 (by omega)
  have hunit : unitAt n = 2 ^ (n.log2 - 52) := rfl
  have hpos : 0 < unitAt n := by
    rw [hunit]
    exact Nat.two_pow_pos _
  have hlead : 2 ^ 52 * unitAt n = 2 ^ n.log2 := by
    rw [hunit, ← Nat.pow_add, Nat.add_sub_cancel' (by omega)]
  have hdiv : 2 ^ 52 ≤ n / unitAt n := by
    rw [Nat.le_div_iff_mul_le hpos, hlead]
    exact Nat.log2_self_le hn
  have hround : 2 ^ n.log2 ≤ roundNat n := by
    rw [← hlead]
    exact Nat.mul_le_mul_right _ (Nat.le_trans hdiv (div_le_roundEven n (unitAt n)))
  have hpow : 2 ^ 53 ≤ 2 ^ n.log2 := Nat.pow_le_pow_right (by omega) hlog
  omega

/-- Rounding neither takes a whole number across a bound in the safe range, nor changes one below
it. -/
theorem roundNat_le_iff {n max : Nat} (hmax : max ≤ maxSafe) : roundNat n ≤ max ↔ n ≤ max := by
  constructor
  · intro h
    have hn : n ≤ maxSafe := by
      refine Nat.le_of_not_lt fun hlt => ?_
      have := lt_roundNat hlt
      omega
    rwa [roundNat_of_le hn] at h
  · intro h
    rw [roundNat_of_le (Nat.le_trans h hmax)]
    exact h

/-- What is rounded into the safe range was in it and is not changed. -/
theorem eq_of_nearest?_of_le {n k : Nat} (h : nearest? n = some k) (hk : k ≤ maxSafe) : k = n := by
  have hround := eq_of_nearest? h
  have hn : n ≤ maxSafe := (roundNat_le_iff (Nat.le_refl _)).1 (hround ▸ hk)
  rw [hround, roundNat_of_le hn]

end Binary64

end WakeConfig
