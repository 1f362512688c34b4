import WakeConfig.Config.Default

/-!
# Arguments

The arguments of the program are words and options. The one option names the configuration file,
as `--config path`, `-c path` or `--config=path`; it may stand anywhere, and the last one counts.
Everything else is a word, and the first word is the command.
-/

namespace WakeConfig

/-- What is wrong with arguments: an option has no path. -/
structure UsageError where
  option : String
  deriving Repr, DecidableEq

/-- The wording of a usage error. -/
def UsageError.message (e : UsageError) : String :=
  let option := e.option
  s!"Option {option} requires a path"

/-- Arguments, taken apart. -/
structure Arguments where
  words : List String
  path? : Option String
  deriving Repr, DecidableEq

namespace Arguments

/-- The option in its long form. -/
def longOption : String := "--config"

/-- The option in its short form. -/
def shortOption : String := "-c"

/-- The path in an argument that is an option with its path. -/
def inlinePath? (argument : String) : Option String :=
  (List.isPrefixOf? (longOption ++ "=").toList argument.toList).map String.ofList

/-- Puts a word before the others. -/
def addWord (word : String) (a : Arguments) : Arguments := { a with words := word :: a.words }

/-- Takes a path unless a later one is there. -/
def addPath (path : String) (a : Arguments) : Arguments :=
  { a with path? := a.path?.or (some path) }

/-- Takes arguments apart. -/
def read : List String → Except UsageError Arguments
  | [] => .ok ⟨[], none⟩
  | argument :: rest =>
    if argument = longOption ∨ argument = shortOption then
      match rest with
      | [] => .error ⟨argument⟩
      | path :: rest => if path = "" then .error ⟨argument⟩ else (read rest).map (addPath path)
    else
      match inlinePath? argument with
      | some path => if path = "" then .error ⟨longOption⟩ else (read rest).map (addPath path)
      | none => (read rest).map (addWord argument)

/-- The command, empty where there is no word. -/
def command (a : Arguments) : String := a.words.headD ""

/-- The words behind the command. -/
def rest (a : Arguments) : List String := a.words.drop 1

/-- The candidate path of the configuration file. -/
def configPath (a : Arguments) : String := a.path?.getD Default.configFile

end Arguments

end WakeConfig
