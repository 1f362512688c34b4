import WakeConfig.Text.Digits

/-!
# Literal IP addresses

The written forms of an address: four decimal parts for version 4, and for version 6 eight groups
of hexadecimal digits, of which a double colon may replace one or more and of which the last two
may be a version 4 address; a zone may follow a percent sign.
-/

namespace WakeConfig

/-- The version of the Internet protocol that an address belongs to. -/
inductive Family where
  | v4
  | v6
  deriving Repr, DecidableEq, Inhabited

/-- The number of a protocol version. -/
def Family.number : Family → Nat
  | v4 => 4
  | v6 => 6

namespace IpAddress

open Text (isDigit digitsValue)

/-! ## Numbers -/

/-- Whether a character is a hexadecimal digit. -/
def isHexDigit (c : Char) : Bool := isDigit c || ('a' ≤ c && c ≤ 'f') || ('A' ≤ c && c ≤ 'F')

/-! ## Version 4 -/

/-- A part of a version 4 address: at most 255, without a leading zero. -/
def isPart (s : List Char) : Bool :=
  !s.isEmpty && s.length ≤ 3 && s.all isDigit && (s.length == 1 || s.head? != some '0')
    && digitsValue s ≤ 255

/-- Whether a text is a version 4 address. -/
def isV4 (s : List Char) : Bool :=
  let parts := s.splitOn '.'
  parts.length == 4 && parts.all isPart

/-! ## Version 6 -/

/-- A group of one to four hexadecimal digits. -/
def isGroup (s : List Char) : Bool := !s.isEmpty && s.length ≤ 4 && s.all isHexDigit

/-- How many groups a sequence between colons stands for; its last item may be a version 4 address,
which counts as two. -/
def groupCount? : List (List Char) → Option Nat
  | [] => some 0
  | [last] => if isGroup last then some 1 else if isV4 last then some 2 else none
  | group :: rest => if isGroup group then (groupCount? rest).map (· + 1) else none

/-- The items between the colons of a text, none for the empty text. -/
def colonItems (s : List Char) : List (List Char) := if s.isEmpty then [] else s.splitOn ':'

/-- The texts before and after the first double colon. -/
def splitGap? : List Char → Option (List Char × List Char)
  | [] => none
  | ':' :: ':' :: rest => some ([], rest)
  | c :: rest => (splitGap? rest).map fun (before, after) => (c :: before, after)

/-- Whether a text is a version 6 address without a zone. -/
def isBareV6 (s : List Char) : Bool :=
  match splitGap? s with
  | none => groupCount? (colonItems s) == some 8
  | some (before, after) =>
    (colonItems before).all isGroup &&
      match groupCount? (colonItems after) with
      | some n => (colonItems before).length + n ≤ 7
      | none => false

/-- Whether a character may stand in a zone. -/
def isZoneChar (c : Char) : Bool :=
  isDigit c || ('a' ≤ c && c ≤ 'z') || ('A' ≤ c && c ≤ 'Z') || c == '-' || c == '.' || c == ':'

/-- Whether a text is empty or a percent sign and a zone. -/
def isZoneSuffix : List Char → Bool
  | [] => true
  | _ :: zone => !zone.isEmpty && zone.all isZoneChar

/-- Whether a text is a version 6 address. -/
def isV6 (s : List Char) : Bool :=
  isBareV6 (s.takeWhile (· != '%')) && isZoneSuffix (s.dropWhile (· != '%'))

/-! ## Classification -/

/-- The version of the address that a text is, if it is one. -/
def family? (s : String) : Option Family :=
  if isV4 s.toList then some .v4 else if isV6 s.toList then some .v6 else none

end IpAddress

end WakeConfig
