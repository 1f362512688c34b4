import WakeConfig.Number.Decimal

/-!
# JSON values

A JSON value with the members of an object in the order in which they are written, and a number
as a decimal in lowest terms.
-/

namespace WakeConfig

/-- A JSON value. -/
inductive Json where
  | null
  | bool (value : Bool)
  | number (value : Decimal)
  | string (text : String)
  | array (items : List Json)
  | object (members : List (String × Json))
  deriving Repr, Inhabited

namespace Json

/-- A whole number. -/
def ofNat (n : Nat) : Json := number (.ofNat n)

/-- The member of an object with a given name. -/
def member? (name : String) : Json → Option Json
  | object members => members.lookup name
  | _ => none

/-- An object of those members that have a value. -/
def ofMembers (members : List (String × Option Json)) : Json :=
  object (members.filterMap fun (name, value) => value.map (name, ·))

end Json

end WakeConfig
