import WakeConfig.CommandLine.Action
import WakeConfig.Config.Show
import WakeConfig.Environment.Documented
import WakeConfig.Load
import WakeConfig.Terminal.Report

/-!
# The command `config`

`config test` loads the configuration and prints a summary, `config show` prints the tree, and
`config env` lists the variables. Where the configuration cannot be loaded the first two report
that and leave the program with code 1.
-/

namespace WakeConfig.ConfigCommand

/-- A run of a command: what it does, and the code that it gives back unless it has left the
program. -/
structure CommandRun where
  actions : List Action
  code? : Option Nat

/-- The actions that report a failure. -/
def reporting (d : Display) (f : Failure) : List Action :=
  ((Report.ofFailure f).lines d).map .complain

/-- Loads the configuration and prints lines about it. -/
def loading (s : Surroundings) (d : Display) (path : String) (describe : Config → List String) :
    CommandRun :=
  let outcome := load s path
  let logged := outcome.entries.map Action.log
  match outcome.result with
  | .error e => ⟨logged ++ reporting d (.ofRaised s.reason e) ++ [.exit 1], none⟩
  | .ok loaded => ⟨logged ++ (describe loaded.config).map .print, some 0⟩

/-- The lines of a valid configuration. -/
def validLines (d : Display) (c : Config) : List String :=
  (d.styled .green (d.symbol "✓" "OK") ++ " Config is valid") :: c.summary.map ("  " ++ ·)

/-- The lines about a variable. -/
def variableLines (v : VariableDoc) : List String :=
  let default := match v.default? with
    | none => ""
    | some text => " (default: " ++ String.ofList (Json.quote text.toList) ++ ")"
  [v.name ++ " [" ++ v.type.word ++ "]", "    " ++ v.description ++ default]

/-- Complains about a subcommand. -/
def refused (what : String) : CommandRun :=
  ⟨[.complain what, .complain "\nRun \"lazymc help config\" for usage information."], some 1⟩

/-- Runs the command with its words. -/
def run (s : Surroundings) (d : Display) (path : String) (words : List String) : CommandRun :=
  match words.head? with
  | some "test" => loading s d path (validLines d)
  | some "show" => loading s d path fun c => [c.render]
  | some "env" => ⟨((VariableDoc.all s.platform).flatMap variableLines).map .print, some 0⟩
  | some other => refused ("Unknown config subcommand: " ++ other)
  | none => refused "Missing config subcommand"

end WakeConfig.ConfigCommand
