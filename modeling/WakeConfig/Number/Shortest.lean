import WakeConfig.Number.Binary64
import WakeConfig.Number.Decimal

/-!
# The shortest decimal of a double

The decimal with the fewest digits that reads back as a double, and of those the nearest to it; of
two equally near ones that with an even last digit. For a whole number below `2 ^ 53` that is the
number itself.
-/

namespace WakeConfig.Shortest

/-! ## The numbers that round to a double -/

/-- The numbers that round to a double, in units of `10 ^ -scale`: they lie around `middle`, from
`low` to `high`, and the ends are among them when the interval is closed. -/
structure Interval where
  low : Nat
  middle : Nat
  high : Nat
  scale : Nat
  closed : Bool

/-- The interval of a double other than zero, which reaches half way to the neighbours. Below a
power of two the doubles lie twice as close. A tie is rounded to an even mantissa. -/
def intervalOf (d : Magnitude) : Interval :=
  let scale := (2 - d.exponent).toNat
  let quarter := powerOfTwo (d.exponent - 2).toNat * Nat.pow 5 scale
  let below :=
    if d.mantissa = Binary64.leastMantissa ∧ Binary64.leastExponent < d.exponent then 1 else 2
  { low := (4 * d.mantissa - below) * quarter
    middle := 4 * d.mantissa * quarter
    high := (4 * d.mantissa + 2) * quarter
    scale
    closed := d.mantissa % 2 == 0 }

/-- Whether a number lies in an interval. -/
def Interval.holds (i : Interval) (x : Nat) : Bool :=
  (i.low < x && x < i.high) || (i.closed && (x == i.low || x == i.high))

/-! ## The grid of decimals -/

/-- The multiple of `step` that stands for the middle of an interval, if one lies in it: of the two
around the middle the nearer, and of two equally near ones the even multiple. -/
def onGrid? (i : Interval) (step : Nat) : Option Nat :=
  let below := i.middle / step * step
  let above := below + step
  match i.holds below, i.holds above with
  | true, true =>
    if i.middle - below < above - i.middle then some below
    else if above - i.middle < i.middle - below then some above
    else if i.middle / step % 2 = 0 then some below else some above
  | true, false => some below
  | false, true => some above
  | false, false => none

/-- The number with the fewest leading digits in an interval; seventeen are always enough. -/
def fewestDigits (i : Interval) : Nat :=
  let width := (Nat.toDigits 10 i.middle).length
  ((List.range 17).findSome? fun k => onGrid? i (powerOfTen (width - (k + 1)))).getD i.middle

/-! ## Doubles -/

/-- The shortest decimal of a double with a sign. -/
def decimal (negative : Bool) (d : Magnitude) : Decimal :=
  if d.mantissa = 0 then .ofNat 0
  else
    let i := intervalOf d
    .ofFraction (if negative then -(fewestDigits i : Int) else fewestDigits i) i.scale

/-- The shortest decimal of a whole double. -/
def ofInt (n : Int) : Decimal :=
  if n.natAbs ≤ Binary64.maxSafe then .ofInt n
  else decimal (decide (n < 0)) (Binary64.roundRatio n.natAbs 1)

/-- The shortest decimal of the double nearest to `n / 10 ^ scale`, or nothing if that double is
infinite. -/
def ofFraction? (n : Int) (scale : Nat) : Option Decimal :=
  (Binary64.nearestDecimal? n.natAbs (-scale)).map (decimal (decide (n < 0)))

end WakeConfig.Shortest
