import WakeConfig.Config.Default
import WakeConfig.Environment.Basic
import WakeConfig.Environment.Coerce
import WakeConfig.Net.Resolve
import WakeConfig.Text.Escape

/-!
# Reading variables

Readers of single variables, each named without its common start. A reader falls back where the
variable is unset or its text is not of the right type. The names of the variables that were read
and of the hosts that were looked up are kept in their order. No reader fails by what a text is;
only a foreign error that comes up while a name is looked up is passed on.
-/

namespace WakeConfig.Reader

/-- What the readers read from. -/
structure Source where
  environment : Environment
  resolver : HostResolver
  platform : Platform

/-- What has been read so far: variables by their full names, and host names. -/
structure Trace where
  names : List String
  lookups : List String
  deriving Repr, DecidableEq, Inhabited

/-- A reading that keeps a trace. -/
abbrev Reading := StateM Trace

/-- The full name of a variable. -/
def fullName (key : String) : String := Default.variableStart ++ key

/-- The text of a variable. -/
def raw (s : Source) (key : String) : Reading (Option String) := do
  modify fun t => { t with names := t.names ++ [fullName key] }
  pure (s.environment.get? (fullName key))

/-- A text, with its escapes decoded. The empty text is a value. -/
def string (s : Source) (key fallback : String) : Reading String := do
  match ← raw s key with
  | none => pure fallback
  | some text => pure (Text.unescape text)

/-- A text that the empty text clears. -/
def optionalString (s : Source) (key : String) (fallback : Option String) :
    Reading (Option String) := do
  match ← raw s key with
  | none => pure fallback
  | some text => pure (if text = "" then none else some (Text.unescape text))

/-- A truth value, if the variable holds one. -/
def boolean? (s : Source) (key : String) : Reading (Option Bool) := do
  pure ((← raw s key).bind Coerce.boolean?)

/-- A number of at most `max`, if the variable holds one. -/
def unsigned? (s : Source) (max : Nat) (key : String) : Reading (Option Nat) := do
  pure ((← raw s key).bind (Coerce.unsigned? max))

/-- A truth value. -/
def boolean (s : Source) (key : String) (fallback : Bool) : Reading Bool := do
  pure ((← boolean? s key).getD fallback)

/-- A number of at most `max`. -/
def unsigned (s : Source) (max : Nat) (key : String) (fallback : Nat) : Reading Nat := do
  pure ((← unsigned? s max key).getD fallback)

/-- A list of texts with commas between them. -/
def list (s : Source) (key : String) (fallback : List String) : Reading (List String) := do
  match ← raw s key with
  | none => pure fallback
  | some text => pure (Coerce.list (Text.unescape text))

/-- A list of join methods; names of no method are left out. -/
def methods (s : Source) (key : String) (fallback : List String) : Reading (List JoinMethod) := do
  pure ((← list s key fallback).filterMap Coerce.joinMethod?)

/-- The default of a socket address. -/
def literal (fallback : String) : Except (Raised AddressError) SocketAddress :=
  (SocketAddress.parse fallback).mapError .own

/-- A socket address. A text that does not resolve counts as unset. -/
def socketAddress (s : Source) (key fallback : String) :
    Reading (Except (Raised AddressError) SocketAddress) := do
  match ← raw s key with
  | none => pure (literal fallback)
  | some text =>
    let r := SocketAddress.resolve (s.resolver (← get).lookups) text
    modify fun t => { t with lookups := t.lookups ++ r.lookups }
    match r.outcome with
    | .ok a => pure (.ok a)
    | .error (.own _) => pure (literal fallback)
    | .error (.foreign raised) => pure (.error (.foreign raised))

end WakeConfig.Reader
