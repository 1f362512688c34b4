import WakeConfig.Log

/-!
# What a run does

A run of the program is a list of actions: it prints lines, complains in lines, logs entries and
exits with a code. Lines are printed to the standard output, and complaints and log lines to the
standard error.
-/

namespace WakeConfig

/-- An action of the program. -/
inductive Action where
  | print (line : String)
  | complain (line : String)
  | log (entry : LogEntry)
  | exit (code : Nat)
  deriving Repr

namespace Action

/-- What an action writes to the standard output. -/
def output : Action → String
  | print line => line ++ "\n"
  | _ => ""

/-- What an action writes to the standard error. -/
def errorOutput (logger : Logger) (timestamp : String) : Action → String
  | complain line => line ++ "\n"
  | log entry => String.join (logger.write timestamp entry)
  | _ => ""

/-- The code with which an action exits. -/
def exitCode? : Action → Option Nat
  | exit code => some code
  | _ => none

end Action

/-- What can be seen of a run. -/
structure Transcript where
  output : String
  errorOutput : String
  exitCode? : Option Nat
  deriving Repr, DecidableEq

/-- The transcript of actions. -/
def Transcript.ofActions (logger : Logger) (timestamp : String) (actions : List Action) :
    Transcript where
  output := String.join (actions.map Action.output)
  errorOutput := String.join (actions.map (Action.errorOutput logger timestamp))
  exitCode? := actions.findSome? Action.exitCode?

end WakeConfig
