import WakeConfig.Files.Error
import WakeConfig.Load
import WakeConfig.Terminal.Display

/-!
# Reporting failures

A report of a failure: its wording, the file and the variable it is about where there are any, and
suggestions that follow from its type.
-/

namespace WakeConfig

/-- A failure: one to load the configuration, another error, perhaps with a code of the system, or
a bare text. -/
inductive Failure where
  | load (kind : LoadKind) (message : String) (path? variableName? : Option String)
  | error (message : String) (code? : Option String)
  | bare (text : String)
  deriving Repr, DecidableEq

namespace Failure

/-- The wording of a failure. -/
def message : Failure → String
  | load _ message _ _ => message
  | error message _ => message
  | bare text => text

/-- Whether a failure says that there is no such entry. -/
def isMissingEntry : Failure → Bool
  | error _ (some code) => isMissingCode code
  | _ => false

/-- The failure of an error with which loading ends, where `reason` has the reasons for which texts
are refused as documents. A foreign one says nothing but its message. -/
def ofRaised (reason : String → String) : Raised LoadError → Failure
  | .foreign raised => error raised.message none
  | .own e =>
    match e.kind? with
    | some kind => load kind (e.message reason) e.path? e.variableName?
    | none => error (e.message reason) none

end Failure

/-! ## Suggestions -/

/-- The type of a failure, from which suggestions follow. -/
inductive FailureType where
  | configRead
  | configParse
  | missingVariable
  | unknown
  deriving Repr, DecidableEq

/-- Something to try, perhaps with a command for it. -/
structure Suggestion where
  text : String
  action? : Option String
  deriving Repr, DecidableEq

namespace FailureType

/-- All types. -/
def all : List FailureType := [configRead, configParse, missingVariable, unknown]

/-- The word for a type. -/
def word : FailureType → String
  | configRead => "config_read"
  | configParse => "config_parse"
  | missingVariable => "config_missing_env"
  | unknown => "unknown"

/-- The type of a word. -/
def ofWord? (s : String) : Option FailureType := all.find? fun t => t.word == s

/-- The type of a kind of failure to load. -/
def ofKind : LoadKind → FailureType
  | .read => configRead
  | .parse => configParse
  | .missingVariable => missingVariable

/-- The suggestions for a type. -/
def suggestions : FailureType → List Suggestion
  | configRead =>
    [ ⟨"Check that the config file is readable by the current user", some "ls -l lazymc.toml"⟩,
      ⟨"Point lazymc at a different config file", some "lazymc config test --config <path>"⟩ ]
  | configParse =>
    [ ⟨"Fix the syntax error or invalid value reported above", none⟩,
      ⟨"Make sure every address is a reachable host:port", none⟩,
      ⟨"Validate the config file", some "lazymc config test --config <path>"⟩ ]
  | missingVariable =>
    [ ⟨"Set the server start command",
        some "export LAZYMC_SERVER_COMMAND=\"java -jar server.jar\""⟩,
      ⟨"Or create a config file with a [server] command",
        some "lazymc config test --config lazymc.toml"⟩,
      ⟨"List all supported environment variables", some "lazymc config env"⟩ ]
  | unknown =>
    [⟨"Run with debug logging for more detail", some "LAZYMC_DEBUG=1 lazymc config test"⟩]

end FailureType

/-! ## Reports -/

/-- What a report says. -/
structure Report where
  message : String
  type : FailureType
  path? : Option String
  variableName? : Option String
  deriving Repr, DecidableEq

namespace Report

/-- The report of a failure. -/
def ofFailure : Failure → Report
  | .load kind message path? variableName? => ⟨message, .ofKind kind, path?, variableName?⟩
  | f => ⟨f.message, .unknown, none, none⟩

/-- A line that names what a report is about. -/
def detail (d : Display) (label : String) : Option String → String
  | none => ""
  | some name => "\n  " ++ d.styled .yellow label ++ " " ++ name

/-- A numbered suggestion. -/
def suggestionText (d : Display) (number : Nat) (s : Suggestion) : String :=
  let action := match s.action? with
    | none => ""
    | some action => "\n    " ++ d.styled .dim action
  "\n  " ++ d.styled .yellow (toString number ++ ".") ++ " " ++ s.text ++ action

/-- Suggestions, numbered from the given number. -/
def suggestionTexts (d : Display) : Nat → List Suggestion → String
  | _, [] => ""
  | number, s :: rest => suggestionText d number s ++ suggestionTexts d (number + 1) rest

/-- The text of a report. -/
def text (d : Display) (r : Report) : String :=
  d.styled .red "Error:" ++ " " ++ r.message
    ++ detail d "File:" r.path?
    ++ detail d "Variable:" r.variableName?
    ++ "\n\n" ++ d.styled .bold "Suggestions:"
    ++ suggestionTexts d 1 r.type.suggestions

/-- The lines in which a report is printed: an empty one before and behind it. -/
def lines (d : Display) (r : Report) : List String := ["", r.text d, ""]

end Report

end WakeConfig
