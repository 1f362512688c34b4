import WakeConfig.CommandLine.Arguments
import WakeConfig.CommandLine.ConfigCommand
import WakeConfig.CommandLine.Help

/-!
# Runs of the program

What the program does with its arguments: it reads them, finds the command and runs it.
-/

namespace WakeConfig.CommandLine

/-- The log of the program: entries for debugging are asked for by a variable. -/
def logger (e : Environment) : Logger :=
  ⟨"config", e.get? (Default.variableStart ++ "DEBUG") == some "1"⟩

/-- Complains about the arguments and leaves the program. -/
def refuse (what : String) : List Action :=
  [ .complain ("Error: " ++ what),
    .complain "\nRun \"lazymc help\" for usage information.",
    .exit 1 ]

/-- Prints the help on a topic. -/
def helpOn (name : String) : List Action :=
  match Help.topic? name with
  | some text => [.print text]
  | none =>
    [ .complain ("Unknown command: " ++ name),
      .complain "\nRun \"lazymc help\" to see all available commands." ]

/-- The line about the version. -/
def versionLine (manifest? : Option String) : String :=
  "lazymc v" ++ Help.programVersion manifest? ++ " (config format " ++ Default.configVersion ++ ")"

/-- Leaves the program with the code that a command gives back. -/
def leaving (r : ConfigCommand.CommandRun) : List Action :=
  match r.code? with
  | some code => r.actions ++ [.exit code]
  | none => r.actions

/-- The commands for help. -/
def helpCommands : List String := ["", "help", "--help", "-h"]

/-- The commands for the version. -/
def versionCommands : List String := ["version", "--version", "-v"]

/-- Runs the command of arguments. -/
def dispatch (s : Surroundings) (manifest? : Option String) (d : Display) (a : Arguments) :
    List Action :=
  if a.command ∈ helpCommands then
    match a.rest.head? with
    | some name => helpOn name ++ [.exit 0]
    | none => [.print Help.overview, .exit 0]
  else if a.command ∈ versionCommands then [.print (versionLine manifest?), .exit 0]
  else if a.command = "config" then
    if "--help" ∈ a.rest ∨ "-h" ∈ a.rest then helpOn "config" ++ [.exit 0]
    else leaving (ConfigCommand.run s d a.configPath a.rest)
  else refuse ("Unknown command: " ++ a.command)

/-- What the program does with its arguments, where the manifest that is beside it has a text. -/
def run (s : Surroundings) (manifest? : Option String) (isTerminal : Bool)
    (arguments : List String) : List Action :=
  match Arguments.read arguments with
  | .error e => refuse e.message
  | .ok a => dispatch s manifest? (Display.detect s.environment isTerminal) a

end WakeConfig.CommandLine
