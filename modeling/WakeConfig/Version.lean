import WakeConfig.Number.Binary64
import WakeConfig.Text.Blank
import WakeConfig.Text.Digits

/-!
# Dotted versions

A version is dotted decimal numbers, perhaps behind a `v` and between blanks. Each part counts as
the double nearest to its digits. Two versions are compared by the difference of the first parts
that differ, missing parts being zero; a declared version is checked against the least one that
needs no change.
-/

namespace WakeConfig

/-- A part of a version: a whole double, or nothing when the digits are beyond every double. -/
abbrev VersionPart := Option Nat

namespace Version

open Text (isDigit digitsValue)

/-! ## Parsing -/

/-- Drops one leading `v`. -/
def dropMark : List Char → List Char
  | 'v' :: rest => rest
  | s => s

/-- The parts of a version text. -/
def parse? (s : String) : Option (List VersionPart) :=
  let parts := (dropMark (Text.trim s.toList)).splitOn '.'
  if parts.all fun part => !part.isEmpty && part.all isDigit then
    some (parts.map fun part => Binary64.nearest? (digitsValue part))
  else none

/-! ## Comparison -/

/-- A difference of two parts. Between two infinite ones there is none. -/
inductive Difference where
  | finite (n : Int)
  | positiveInfinity
  | negativeInfinity
  | indeterminate
  deriving Repr, DecidableEq

/-- The difference of two parts. -/
def difference : VersionPart → VersionPart → Difference
  | some a, some b => .finite (Binary64.roundInt (a - b))
  | none, some _ => .positiveInfinity
  | some _, none => .negativeInfinity
  | none, none => .indeterminate

/-- The difference of the first parts that differ. -/
def compareParts : List VersionPart → List VersionPart → Difference
  | [], [] => .finite 0
  | a :: as, [] =>
    if difference a (some 0) = .finite 0 then compareParts as [] else difference a (some 0)
  | [], b :: bs =>
    if difference (some 0) b = .finite 0 then compareParts [] bs else difference (some 0) b
  | a :: as, b :: bs =>
    if difference a b = .finite 0 then compareParts as bs else difference a b

/-- The difference of two versions, if both are versions. -/
def compare? (a b : String) : Option Difference :=
  match parse? a, parse? b with
  | some as, some bs => some (compareParts as bs)
  | _, _ => none

/-- Whether a difference says that the first version is the older one. -/
def Difference.isOlder : Difference → Bool
  | finite n => n < 0
  | negativeInfinity => true
  | _ => false

/-! ## Checking -/

/-- The outcome of checking a declared version. -/
inductive Check where
  | ok (declared : String)
  | unknown
  | outdated (declared minimum : String)
  | invalid (declared : String)
  deriving Repr, DecidableEq

/-- Checks a declared version against the least one that needs no change. -/
def check (minimum : String) : Option String → Check
  | none => .unknown
  | some declared =>
    match compare? declared minimum with
    | none => .invalid declared
    | some d => if d.isOlder then .outdated declared minimum else .ok declared

/-- The name of an outcome. -/
def Check.status : Check → String
  | ok _ => "ok"
  | unknown => "unknown"
  | outdated _ _ => "outdated"
  | invalid _ => "invalid"

/-- The warning for an outcome, if it deserves one. -/
def Check.warning? : Check → Option String
  | ok _ => none
  | unknown => some "Config version unknown, it may be outdated"
  | outdated _ _ => some "Config is for older lazymc version, you may need to update it"
  | invalid _ => some "Config version is invalid, you may need to update it"

end Version

end WakeConfig
