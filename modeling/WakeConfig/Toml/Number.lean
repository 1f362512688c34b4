import WakeConfig.Text.Digits
import WakeConfig.Toml.Quoted
import WakeConfig.Toml.Value

/-!
# TOML numbers

Integers in four bases and floats. An underscore, a point and a sign of an exponent must be
followed by something that can still belong to a word, but it is only checked that no other part
of a number and no end of a word follows: directly before a closing bracket, a brace or a comma a
number may be left unfinished.
-/

namespace WakeConfig.Toml.Number

open Text (isDigit)

/-! ## Characters -/

/-- Whether a character ends a word: a blank, a line break or a comment. -/
def endsWord (c : Char) : Bool := c == '#' || c == '\t' || c == ' ' || c == '\n' || c == '\r'

/-- Whether the input is at the end of a word. -/
def atWordEnd : List Char → Bool
  | [] => true
  | c :: _ => endsWord c

/-- The characters that may not follow where a decimal digit is expected. -/
def haltsDecimal (c : Char) : Bool := c == '_' || c == '.' || c == 'e' || c == 'E' || endsWord c

/-- The characters that may not follow where a digit of another base is expected. -/
def haltsBased (c : Char) : Bool := c == '_' || c == '.' || endsWord c

/-- Whether the input goes on with a character that does not halt. -/
def goesOn (halts : Char → Bool) : List Char → Bool
  | [] => false
  | c :: _ => !halts c

/-- Reads digits with underscores between them, which are dropped. -/
def digitRun (digit halts : Char → Bool) : List Char → Read (List Char)
  | [] => some ([], [])
  | c :: rest =>
    if digit c then Quoted.push c (digitRun digit halts rest)
    else if c = '_' then if goesOn halts rest then digitRun digit halts rest else none
    else some ([], c :: rest)

/-! ## Floats -/

/-- Reads an exponent, from after its letter, and gives the rest. -/
def exponent : List Char → Option (List Char)
  | [] => none
  | c :: rest =>
    if c = '+' ∨ c = '-' then
      if goesOn haltsDecimal rest then (digitRun isDigit haltsDecimal rest).map (·.2) else none
    else if isDigit c then (digitRun isDigit haltsDecimal (c :: rest)).map (·.2)
    else none

/-- Reads a fraction and perhaps an exponent, from after the point, and gives the rest. -/
def fraction (s : List Char) : Option (List Char) :=
  if goesOn haltsDecimal s then
    match digitRun isDigit haltsDecimal s with
    | none => none
    | some (_, 'e' :: rest) => exponent rest
    | some (_, 'E' :: rest) => exponent rest
    | some (_, rest) => some rest
  else none

/-! ## Integers -/

/-- What a decimal number turned out to be: an integer with its digits, or a float. -/
inductive Decimal where
  | integer (digits : List Char)
  | float

/-- Reads a fraction or an exponent behind digits, or else an integer. -/
def afterDigits (digits : List Char) : List Char → Read Decimal
  | '.' :: rest => (fraction rest).map (Decimal.float, ·)
  | 'e' :: rest => (exponent rest).map (Decimal.float, ·)
  | 'E' :: rest => (exponent rest).map (Decimal.float, ·)
  | rest => if digits.isEmpty then none else some (.integer digits, rest)

/-- Reads a decimal number whose first digit is not zero. -/
def positive (s : List Char) : Read Decimal :=
  match digitRun isDigit haltsDecimal s with
  | none => none
  | some (digits, rest) => afterDigits digits rest

/-- Reads a decimal number behind a sign. A leading zero stands alone before the point or the
exponent. -/
def afterSign (s : List Char) : Read Decimal :=
  if goesOn haltsDecimal s then
    match s with
    | '0' :: rest => afterDigits ['0'] rest
    | _ => positive s
  else none

/-- The value of a digit in a base up to sixteen. -/
def digitValue (c : Char) : Nat := (Quoted.hexValue? c).getD 0

/-- The number that digits spell in a base. -/
def spelled (base : Nat) (digits : List Char) : Int :=
  digits.foldl (fun n d => n * base + (digitValue d : Int)) 0

/-- Whether a character is a digit of a base. -/
def isDigitOf (base : Nat) (c : Char) : Bool :=
  match Quoted.hexValue? c with
  | none => false
  | some n => n < base

/-- Reads an integer in another base, from after its letter. -/
def based (base : Nat) (s : List Char) : Read Value :=
  if goesOn haltsBased s then
    match digitRun (isDigitOf base) haltsBased s with
    | none => none
    | some (digits, rest) =>
      if digits.isEmpty then none else some (.ofWritten (spelled base digits), rest)
  else none

/-! ## Values -/

/-- The text that was read between two points of the input. -/
def token (s rest : List Char) : String := String.ofList (s.take (s.length - rest.length))

/-- The value of a decimal number that was read from `s`. -/
def ofDecimal (negative : Bool) (s : List Char) : Read Decimal → Read Value
  | none => none
  | some (.float, rest) => some (.float (token s rest), rest)
  | some (.integer digits, rest) =>
    some (.ofWritten (if negative then -spelled 10 digits else spelled 10 digits), rest)

/-- Reads `inf` or `nan` at the start of `body`, a part of `s`. -/
def special (s body : List Char) : Read Value :=
  match body with
  | 'i' :: 'n' :: 'f' :: rest => some (.float (token s rest), rest)
  | 'n' :: 'a' :: 'n' :: rest => some (.float (token s rest), rest)
  | _ => none

/-- Reads a number behind its sign; `s` is the input with the sign. -/
def signed (negative : Bool) (s body : List Char) : Read Value :=
  match body with
  | 'i' :: _ => special s body
  | 'n' :: _ => special s body
  | _ => ofDecimal negative s (afterSign body)

/-- Reads a number without a sign that starts with a digit. Behind a zero only a point or the
letter of a base goes on with the number. -/
def unsigned (s : List Char) : Read Value :=
  match s with
  | '0' :: 'x' :: rest => based 16 rest
  | '0' :: 'o' :: rest => based 8 rest
  | '0' :: 'b' :: rest => based 2 rest
  | '0' :: '.' :: rest => ofDecimal false s (afterDigits ['0'] ('.' :: rest))
  | '0' :: rest => some (.integer 0 false, rest)
  | _ => ofDecimal false s (positive s)

end WakeConfig.Toml.Number
