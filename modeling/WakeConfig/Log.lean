import WakeConfig.Text.Json.Printer

/-!
# The log

An entry of the log is one line: a compact JSON object with the time, the level, the component,
the name of the event and, where there are any, its data. In data an error stands for its name and
message. Entries for debugging are written only when that is asked for.
-/

namespace WakeConfig

/-- How grave an entry is. -/
inductive LogLevel where
  | debug
  | info
  | warn
  | error
  deriving Repr, DecidableEq

/-- The name of a level. -/
def LogLevel.name : LogLevel → String
  | debug => "debug"
  | info => "info"
  | warn => "warn"
  | error => "error"

/-- Data of an entry: a JSON value in which errors may stand. -/
inductive LogData where
  | null
  | bool (value : Bool)
  | number (value : Decimal)
  | string (text : String)
  | error (name message : String)
  | array (items : List LogData)
  | object (members : List (String × LogData))
  deriving Repr, Inhabited

namespace LogData

mutual
/-- The JSON value of data: each error becomes an object of its name and message. -/
def toJson : LogData → Json
  | null => .null
  | bool b => .bool b
  | number d => .number d
  | string t => .string t
  | error name message => .object [("name", .string name), ("message", .string message)]
  | array items => .array (itemsToJson items)
  | object members => .object (membersToJson members)

/-- The JSON values of items. -/
def itemsToJson : List LogData → List Json
  | [] => []
  | item :: rest => toJson item :: itemsToJson rest

/-- The JSON values of members. -/
def membersToJson : List (String × LogData) → List (String × Json)
  | [] => []
  | (name, v) :: rest => (name, toJson v) :: membersToJson rest
end

end LogData

/-- An entry of the log. -/
structure LogEntry where
  level : LogLevel
  event : String
  data? : Option LogData
  deriving Repr

namespace LogEntry

/-- The JSON object of an entry. -/
def toJson (component timestamp : String) (e : LogEntry) : Json :=
  .ofMembers
    [ ("timestamp", some (.string timestamp)),
      ("level", some (.string e.level.name)),
      ("component", some (.string component)),
      ("event", some (.string e.event)),
      ("data", e.data?.map LogData.toJson) ]

/-- The line of an entry, with the line break at its end. -/
def line (component timestamp : String) (e : LogEntry) : String :=
  String.ofList ((e.toJson component timestamp).compact ++ ['\n'])

end LogEntry

/-- A writer of entries for one component. -/
structure Logger where
  component : String
  debugMode : Bool
  deriving Repr, DecidableEq

namespace Logger

/-- Whether an entry is written. -/
def accepts (l : Logger) (e : LogEntry) : Bool := l.debugMode || e.level != .debug

/-- The lines that an entry gives: one, or none. -/
def write (l : Logger) (timestamp : String) (e : LogEntry) : List String :=
  if l.accepts e then [e.line l.component timestamp] else []

/-- An accepted entry gives one line and any other none. -/
theorem length_write (l : Logger) (timestamp : String) (e : LogEntry) :
    (l.write timestamp e).length = if l.accepts e then 1 else 0 := by
  unfold write
  split <;> simp

end Logger

end WakeConfig
