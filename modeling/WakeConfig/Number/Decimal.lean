/-!
# Decimal numbers

A decimal number in lowest terms, and its text. A number whose leading digit stands from the
millionths to the twenty-first place before the point is written positionally, and any other with
an exponent.
-/

namespace WakeConfig

/-- The number `mantissa / 10 ^ scale`, of which no smaller scale will do. -/
structure Decimal where
  mantissa : Int
  scale : Nat
  lowest : scale = 0 ∨ mantissa % 10 ≠ 0
  deriving Repr, DecidableEq

namespace Decimal

/-! ## Numbers -/

/-- The number `n / 10 ^ scale`. -/
def ofFraction (n : Int) : Nat → Decimal
  | 0 => ⟨n, 0, .inl rfl⟩
  | scale + 1 =>
    if h : n % 10 = 0 then ofFraction (n / 10) scale else ⟨n, scale + 1, .inr h⟩

/-- A whole number. -/
def ofInt (n : Int) : Decimal := ⟨n, 0, .inl rfl⟩

/-- The number `n / 10 ^ scale`, for a scale that may be negative. -/
def scaled (n : Int) : Int → Decimal
  | .ofNat scale => ofFraction n scale
  | .negSucc zeros => ofInt (n * Int.ofNat (Nat.pow 10 (zeros + 1)))

/-- A whole number that is not negative. -/
def ofNat (n : Nat) : Decimal := ofInt n

/-! ## Text -/

/-- Digits with a point before the last `scale` of them, and zeros in front where they are too
few. There is no point where none of them stands behind it. -/
def positional (digits : List Char) (scale : Nat) : List Char :=
  let padded := List.replicate (scale + 1 - digits.length) '0' ++ digits
  let whole := padded.length - scale
  padded.take whole ++ (if scale = 0 then [] else '.' :: padded.drop whole)

/-- Digits with a point behind the first of them and without zeros at the end, and an exponent. -/
def scientific (digits : List Char) (exponent : Int) : List Char :=
  let kept := (digits.reverse.dropWhile (· == '0')).reverse
  let fraction := kept.drop 1
  kept.take 1 ++ (if fraction.isEmpty then [] else '.' :: fraction)
    ++ 'e' :: (if exponent < 0 then '-' else '+') :: Nat.toDigits 10 exponent.natAbs

/-- The text of a number. -/
def chars (d : Decimal) : List Char :=
  let digits := Nat.toDigits 10 d.mantissa.natAbs
  let point : Int := digits.length - d.scale
  (if d.mantissa < 0 then ['-'] else []) ++
    if -6 < point ∧ point ≤ 21 then positional digits d.scale else scientific digits (point - 1)

/-- The text of a number. -/
def text (d : Decimal) : String := String.ofList d.chars

/-- A number in lowest terms is what its own fraction gives. -/
theorem ofFraction_mantissa_scale (d : Decimal) : ofFraction d.mantissa d.scale = d := by
  obtain ⟨m, s, h⟩ := d
  cases s with
  | zero => rfl
  | succ s =>
    have hm : m % 10 ≠ 0 := by simpa using h
    simp [ofFraction, hm]

/-- A factor of ten does not change a fraction. -/
theorem ofFraction_mul_ten (n : Int) (scale : Nat) :
    ofFraction (n * 10) (scale + 1) = ofFraction n scale := by
  simp [ofFraction]

end Decimal

end WakeConfig
