import WakeConfig.Net.SocketAddress
import WakeConfig.Number.Shortest
import WakeConfig.Toml.FloatLiteral
import WakeConfig.Toml.FloatValue
import WakeConfig.Toml.Value

/-!
# Errors in a configuration file

What can be wrong with a configuration file: its text, a missing section or field, or the type or
the value of a field. A field is named by its path, such as `join.hold.timeout`. Why a text is no
document is worded by the reader of documents, so the wording of an error takes these reasons as
given.
-/

namespace WakeConfig

/-- The type that a field must have. -/
inductive Expected where
  | string
  | boolean
  | integer
  | array
  | table
  deriving Repr, DecidableEq

/-- The type that a field has. A string that starts with the float marker is a float, and an
integer that is written beyond the safe range is told apart. -/
inductive Found where
  | string
  | boolean
  | number
  | largeInteger
  | float
  | datetime
  | array
  | object
  deriving Repr, DecidableEq

/-- What is wrong with a configuration file. -/
inductive ConfigError where
  | notToml (refused : String)
  | missingSection (name : String)
  | missingField (field : String)
  | wrongType (field : String) (expected : Expected) (found : Found)
  | outOfRange (field : String) (max : Nat) (value : Int)
  | unknownMethod (field name : String)
  | badAddress (field : String) (cause : AddressError)
  deriving Repr, DecidableEq

/-- The word for an expected type. -/
def Expected.word : Expected → String
  | string => "string"
  | boolean => "boolean"
  | integer => "integer"
  | array => "array"
  | table => "table"

/-- The word for a type that was found. -/
def Found.word : Found → String
  | string => "string"
  | boolean => "boolean"
  | number => "number"
  | largeInteger => "bigint"
  | float => "float"
  | datetime => "datetime"
  | array => "array"
  | object => "object"

/-- The wording of an error, where `reason` has the reasons for which texts are refused as
documents. -/
def ConfigError.message (reason : String → String) : ConfigError → String
  | notToml refused => "Invalid TOML syntax: " ++ reason refused
  | missingSection name => s!"Missing required section '[{name}]'"
  | missingField field => s!"Missing required field '{field}'"
  | wrongType field expected found =>
    let want := expected.word
    let got := found.word
    s!"Invalid type for '{field}': expected {want}, got {got}"
  | outOfRange field max value =>
    let most := (Shortest.ofInt max).text
    let got := (Shortest.ofInt value).text
    s!"Invalid value for '{field}': must be between 0 and {most}, got {got}"
  | unknownMethod field name =>
    s!"Invalid value for '{field}': expected one of 'kick', 'hold', 'forward', 'lobby', got '{name}'"
  | badAddress field cause =>
    let reason := cause.message
    s!"Invalid address for '{field}': {reason}"

/-- The type of a value as errors name it. -/
def Toml.Value.found : Toml.Value → Found
  | string text => if Toml.FloatLiteral.isMarked text then .float else .string
  | boolean _ => .boolean
  | integer _ large => if large then .largeInteger else .number
  | float token => if (Toml.FloatValue.whole? token).isSome then .number else .float
  | datetime => .datetime
  | array _ => .array
  | tables _ => .array
  | table _ _ => .object

end WakeConfig
