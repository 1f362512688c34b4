import WakeConfig.Text.Digits
import WakeConfig.Toml.Number

/-!
# TOML dates and times

Dates, local times and date-times with or without an offset. Only whether a text is one is kept.
A date with a month and a day of two digits each is read as year, month and day; with other
counts of digits the three numbers are read loosely, and a first number that could be a day then
makes them month, day and year. Days are counted up to a hundred million after 1 January 1970.
-/

namespace WakeConfig.Toml.DateTime

open Text (isDigit digitsValue)
open Number (atWordEnd)

/-- Whether a number can be a month. -/
def isMonth (n : Nat) : Bool := 1 ≤ n && n ≤ 12

/-- Whether a number can be a day of a month. -/
def isDay (n : Nat) : Bool := 1 ≤ n && n ≤ 31

/-- Whether a month and a day have two digits each and are in range. -/
def isPlainDate (month day : List Char) : Bool :=
  month.length == 2 && day.length == 2 && isMonth (digitsValue month) && isDay (digitsValue day)

/-- Whether a date is not after the last day that is counted, 13 September 275760. -/
def isCounted (year month day : Nat) : Bool :=
  year < 275760 || (year == 275760 && (month < 9 || (month == 9 && day ≤ 13)))

/-- Whether a year, a month and a day are a date. -/
def isCalendarDate (year month day : Nat) : Bool :=
  isMonth month && isDay day && isCounted year month day

/-- Whether three groups of digits are a date; a missing day is the first. -/
def isDate (year month day : List Char) : Bool :=
  isPlainDate month day ||
    let first := digitsValue year
    let second := digitsValue month
    let third := if day.isEmpty then 1 else digitsValue day
    if isDay first then isCalendarDate third first second else isCalendarDate first second third

/-- A time of day. -/
structure Clock where
  hour : Nat
  minute : Nat
  second : Nat

/-- Whether a time of day exists; its fraction is given by its digits. The day ends at 24:00:00. -/
def Clock.isValid (c : Clock) (fraction : List Char) : Bool :=
  c.minute ≤ 59 && c.second ≤ 59 &&
    (c.hour ≤ 23 ||
      (c.hour == 24 && c.minute == 0 && c.second == 0 && fraction.all (· == '0')))

/-- Reads `hh:mm:ss`. -/
def clock : List Char → Read Clock
  | a :: b :: ':' :: c :: d :: ':' :: e :: f :: rest =>
    if [a, b, c, d, e, f].all isDigit then
      some (⟨digitsValue [a, b], digitsValue [c, d], digitsValue [e, f]⟩, rest)
    else none
  | _ => none

/-- Reads a fraction of at least one digit behind a point, or no fraction. -/
def fraction : List Char → Read (List Char)
  | '.' :: rest =>
    let digits := rest.takeWhile isDigit
    if digits.isEmpty then none else some (digits, rest.dropWhile isDigit)
  | rest => some ([], rest)

/-- Reads an offset, or the end of a word where there is none. -/
def offset (s : List Char) : Option (List Char) :=
  if atWordEnd s then some s
  else
    match s with
    | 'Z' :: rest => some rest
    | sign :: a :: b :: ':' :: c :: d :: rest =>
      if (sign == '+' || sign == '-') && [a, b, c, d].all isDigit && digitsValue [a, b] ≤ 23
          && digitsValue [c, d] ≤ 59 then some rest
      else none
    | _ => none

/-- Reads the time of a date-time and gives the rest. -/
def timeOfDay (s : List Char) : Option (List Char) :=
  match clock s with
  | none => none
  | some (c, afterClock) =>
    match fraction afterClock with
    | none => none
    | some (digits, rest) => if c.isValid digits then offset rest else none

/-- Reads a date from after its year and hyphen, and the time if one follows. -/
def date (year s : List Char) : Option (List Char) :=
  let month := s.takeWhile isDigit
  match s.dropWhile isDigit with
  | '-' :: afterMonth =>
    let day := afterMonth.takeWhile isDigit
    let rest := afterMonth.dropWhile isDigit
    if month.length < 2 then none
    else
      match rest with
      | [] => if isDate year month day then some [] else none
      | c :: tail =>
        if c = 'T' ∨ c = ' ' then
          if day.length < 2 then none
          else if atWordEnd tail then if isDate year month day then some tail else none
          else if isPlainDate month day then timeOfDay tail else none
        else if Number.endsWord c then if isDate year month day then some rest else none
        else none
  | _ => none

/-- Reads a local time. Without a fraction it takes the character behind it as well. -/
def localTime (s : List Char) : Option (List Char) :=
  match clock s with
  | none => none
  | some (c, '.' :: afterPoint) =>
    match fraction ('.' :: afterPoint) with
    | none => none
    | some (digits, rest) => if c.isValid digits && atWordEnd rest then some rest else none
  | some (c, rest) => if c.isValid [] then some (rest.drop 1) else none

/-- Whether a run of digits and the character behind it start a date or a time. -/
def starts (digits : List Char) : List Char → Bool
  | '-' :: _ => digits.length == 4
  | ':' :: _ => digits.length == 2
  | _ => false

/-- Reads a date, a time or both. -/
def read (s : List Char) : Read Value :=
  let digits := s.takeWhile isDigit
  match s.dropWhile isDigit with
  | '-' :: rest => (date digits rest).map (Value.datetime, ·)
  | _ => (localTime s).map (Value.datetime, ·)

end WakeConfig.Toml.DateTime
