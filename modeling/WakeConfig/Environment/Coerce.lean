import WakeConfig.Config.Basic
import WakeConfig.Number.Binary64
import WakeConfig.Text.Blank
import WakeConfig.Text.Digits
import WakeConfig.Text.Lowercase

/-!
# Reading the text of a variable

How the text of a variable becomes a truth value, a number, a list or a join method. Each reading
says only whether the text is one; what happens when it is not is decided where it is used.
-/

namespace WakeConfig.Coerce

open Text (isDigit digitsValue)

/-- The words for true. -/
def trueWords : List String := ["true", "1", "yes", "on"]

/-- The words for false. -/
def falseWords : List String := ["false", "0", "no", "off"]

/-- Reads a truth value in any letter case. -/
def boolean? (s : String) : Option Bool :=
  if trueWords.any fun word => Text.isWord word s then some true
  else if falseWords.any fun word => Text.isWord word s then some false
  else none

/-- Drops one leading plus sign. -/
def dropPlus : List Char → List Char
  | '+' :: rest => rest
  | s => s

/-- Reads a decimal number of at most `max`; what counts is the double nearest to the digits. -/
def unsigned? (max : Int) (s : String) : Option Nat :=
  let digits := dropPlus s.toList
  if !digits.isEmpty && digits.all isDigit then
    match Binary64.nearest? (digitsValue digits) with
    | some n => if (n : Int) ≤ max then some n else none
    | none => none
  else none

/-- Splits a text at its commas and trims the items. -/
def items (s : List Char) : List (List Char) := (s.splitOn ',').map Text.trim

/-- Splits a string at its commas and trims the items. -/
def list (s : String) : List String := (items s.toList).map String.ofList

/-- Reads the name of a join method in any letter case. -/
def joinMethod? (s : String) : Option JoinMethod :=
  JoinMethod.all.find? fun m => Text.isWord m.name s

end WakeConfig.Coerce
