import WakeConfig.Number.Binary64
import WakeConfig.Text.Digits

/-!
# The number of a float token

A float token stands for the double nearest to its decimal number, its underscores left out. An
infinity is no finite number, and neither is NaN, which a token without digits in its exponent
stands for as well.
-/

namespace WakeConfig.Toml.FloatValue

open Text (isDigit digitsValue)

/-- Whether a text starts with a minus sign, and the text without its sign. -/
def splitSign : List Char → Bool × List Char
  | '-' :: rest => (true, rest)
  | '+' :: rest => (false, rest)
  | s => (false, s)

/-- The exponent that follows the digits of a number. -/
def exponent? : List Char → Option Int
  | [] => some 0
  | _ :: rest =>
    let (negative, digits) := splitSign rest
    if digits.isEmpty then none
    else some (if negative then -(digitsValue digits : Int) else digitsValue digits)

/-- The magnitude of a token without sign and underscores. -/
def magnitude? (s : List Char) : Option Magnitude :=
  let whole := s.takeWhile isDigit
  let rest := s.dropWhile isDigit
  let fraction := match rest with
    | '.' :: tail => tail.takeWhile isDigit
    | _ => []
  let tail := match rest with
    | '.' :: tail => tail.dropWhile isDigit
    | _ => rest
  if whole.isEmpty then none
  else
    match exponent? tail with
    | none => none
    | some e => Binary64.nearestDecimal? (digitsValue (whole ++ fraction)) (e - fraction.length)

/-- The whole number that a float token stands for, if it is one. -/
def whole? (token : String) : Option Int :=
  let (negative, body) := splitSign (token.toList.filter (· != '_'))
  match (magnitude? body).bind Magnitude.whole? with
  | none => none
  | some n => some (if negative then -(n : Int) else n)

end WakeConfig.Toml.FloatValue
