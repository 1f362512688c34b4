import WakeConfig.Text.Digits
import WakeConfig.Text.Json.Basic
import WakeConfig.Toml.Quoted

/-!
# Reading JSON text

The grammar of JSON. A text is one value, and blank characters may stand in front of it, behind it
and around every bracket, comma and colon. A number is exact, whatever its exponent, and an object
keeps its members in the order in which they are written. A reader gives what it read and what
follows it. A code in a string may be one half of a pair that spells one character; a half by
itself is no character, so there is no value for it.
-/

namespace WakeConfig.Json

namespace Reader

open Text (isDigit digitsValue)
open Toml (Read)
open Toml.Quoted (hexValue? scalar? push)

/-- Whether a character may stand between the parts of a text. -/
def isBlank (c : Char) : Bool := c == ' ' || c == '\n' || c == '\r' || c == '\t'

/-- Drops blank characters. -/
def dropBlanks (s : List Char) : List Char := s.dropWhile isBlank

/-! ## Strings -/

/-- The character that a letter stands for behind a backslash. -/
def escape? (c : Char) : Option Char :=
  if c = '"' then some '"'
  else if c = '\\' then some '\\'
  else if c = '/' then some '/'
  else if c = 'b' then some (Char.ofNat 0x08)
  else if c = 'f' then some (Char.ofNat 0x0C)
  else if c = 'n' then some '\n'
  else if c = 'r' then some '\r'
  else if c = 't' then some '\t'
  else none

/-- Whether a code is the first half of a pair. -/
def isFirstHalf (n : Nat) : Bool := 0xD800 ≤ n && n < 0xDC00

/-- Whether a code is the second half of a pair. -/
def isSecondHalf (n : Nat) : Bool := 0xDC00 ≤ n && n < 0xE000

/-- The character of a code, with the first half in front of it if it is the second of a pair. -/
def character? (first? : Option Nat) (n : Nat) : Option Char :=
  match first? with
  | none => scalar? n
  | some first =>
    if isSecondHalf n then scalar? (0x10000 + (first - 0xD800) * 0x400 + (n - 0xDC00)) else none

/-- Where a string is: in its text, behind a backslash, in a code of which a number of digits is
still to come, or behind the first half of a pair, which the second must follow. -/
inductive Place where
  | text
  | escape (first? : Option Nat)
  | code (first? : Option Nat) (lacking value : Nat)
  | half (first : Nat)
  deriving Repr, DecidableEq

/-- Reads the rest of a string up to its closing quote. -/
def stringAt : Place → List Char → Read (List Char)
  | _, [] => none
  | .text, c :: rest =>
    if c = '"' then some ([], rest)
    else if c = '\\' then stringAt (.escape none) rest
    else if c.toNat < 0x20 then none
    else push c (stringAt .text rest)
  | .escape first?, c :: rest =>
    if c = 'u' then stringAt (.code first? 3 0) rest
    else
      match first?, escape? c with
      | none, some x => push x (stringAt .text rest)
      | _, _ => none
  | .code first? lacking value, c :: rest =>
    match hexValue? c with
    | none => none
    | some digit =>
      let value := value * 16 + digit
      if lacking ≠ 0 then stringAt (.code first? (lacking - 1) value) rest
      else if first? = none ∧ isFirstHalf value then stringAt (.half value) rest
      else
        match character? first? value with
        | none => none
        | some x => push x (stringAt .text rest)
  | .half first, c :: rest => if c = '\\' then stringAt (.escape (some first)) rest else none

/-- Reads a string from behind its opening quote. -/
def string (s : List Char) : Read String :=
  (stringAt .text s).map fun (text, rest) => (String.ofList text, rest)

/-! ## Numbers -/

/-- Reads one digit or more. -/
def digits (s : List Char) : Read (List Char) :=
  if (s.takeWhile isDigit).isEmpty then none
  else some (s.takeWhile isDigit, s.dropWhile isDigit)

/-- Reads the digits of a whole number: a zero stands only by itself. -/
def whole (s : List Char) : Read (List Char) :=
  match digits s with
  | some ('0' :: _ :: _, _) => none
  | other => other

/-- Reads the digits behind a point, if there is one. -/
def fraction : List Char → Read (List Char)
  | '.' :: rest => digits rest
  | s => some ([], s)

/-- Reads the digits of an exponent behind its sign. -/
def exponentDigits : List Char → Read Int
  | '-' :: rest => (digits rest).map fun (ds, rest) => (-(digitsValue ds : Int), rest)
  | '+' :: rest => (digits rest).map fun (ds, rest) => ((digitsValue ds : Int), rest)
  | s => (digits s).map fun (ds, rest) => ((digitsValue ds : Int), rest)

/-- Reads an exponent, if there is one. -/
def exponent : List Char → Read Int
  | 'e' :: rest => exponentDigits rest
  | 'E' :: rest => exponentDigits rest
  | s => some (0, s)

/-- Reads a number without its sign: its digits without the point, and how many of them stand
behind it. -/
def magnitude (s : List Char) : Read (Nat × Int) :=
  match whole s with
  | none => none
  | some (before, rest) =>
    match fraction rest with
    | none => none
    | some (behind, rest) =>
      (exponent rest).map fun (shift, rest) =>
        ((digitsValue (before ++ behind), behind.length - shift), rest)

/-- Reads a number. -/
def number : List Char → Read Decimal
  | '-' :: rest => (magnitude rest).map fun ((n, scale), rest) => (Decimal.scaled (-n) scale, rest)
  | s => (magnitude s).map fun ((n, scale), rest) => (Decimal.scaled n scale, rest)

/-! ## Values -/

/-- Reads the name of a member and the colon behind it. -/
def name : List Char → Read String
  | '"' :: rest =>
    match string rest with
    | none => none
    | some (name, rest) =>
      match dropBlanks rest with
      | ':' :: rest => some (name, rest)
      | _ => none
  | _ => none

mutual
/-- Reads a value; the number bounds how many readers may be open at once. -/
def valueUpTo : Nat → List Char → Read Json
  | 0, _ => none
  | n + 1, s =>
    match s with
    | 'n' :: 'u' :: 'l' :: 'l' :: rest => some (.null, rest)
    | 't' :: 'r' :: 'u' :: 'e' :: rest => some (.bool true, rest)
    | 'f' :: 'a' :: 'l' :: 's' :: 'e' :: rest => some (.bool false, rest)
    | '"' :: rest => (string rest).map fun (t, rest) => (.string t, rest)
    | '[' :: rest =>
      match dropBlanks rest with
      | ']' :: rest => some (.array [], rest)
      | rest => (itemsUpTo n rest).map fun (items, rest) => (.array items, rest)
    | '\x7b' :: rest =>
      match dropBlanks rest with
      | '\x7d' :: rest => some (.object [], rest)
      | rest => (membersUpTo n rest).map fun (members, rest) => (.object members, rest)
    | _ => (number s).map fun (d, rest) => (.number d, rest)

/-- Reads one item or more up to the closing bracket. -/
def itemsUpTo : Nat → List Char → Read (List Json)
  | 0, _ => none
  | n + 1, s =>
    match valueUpTo n s with
    | none => none
    | some (item, rest) =>
      match dropBlanks rest with
      | ',' :: rest =>
        (itemsUpTo n (dropBlanks rest)).map fun (items, rest) => (item :: items, rest)
      | ']' :: rest => some ([item], rest)
      | _ => none

/-- Reads one member or more up to the closing brace. -/
def membersUpTo : Nat → List Char → Read (List (String × Json))
  | 0, _ => none
  | n + 1, s =>
    match name s with
    | none => none
    | some (name, rest) =>
      match valueUpTo n (dropBlanks rest) with
      | none => none
      | some (v, rest) =>
        match dropBlanks rest with
        | ',' :: rest =>
          (membersUpTo n (dropBlanks rest)).map fun (members, rest) => ((name, v) :: members, rest)
        | '\x7d' :: rest => some ([(name, v)], rest)
        | _ => none
end

end Reader

/-- The value of a text. -/
def read? (s : List Char) : Option Json :=
  match Reader.valueUpTo (s.length + 1) (Reader.dropBlanks s) with
  | none => none
  | some (v, rest) => if (Reader.dropBlanks rest).isEmpty then some v else none

end WakeConfig.Json
