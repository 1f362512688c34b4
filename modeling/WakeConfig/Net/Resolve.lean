import WakeConfig.Net.SocketAddress

/-!
# Resolving socket addresses

A resolver answers a host name with a list of addresses or a refusal, and it may answer the same
name differently each time it is asked. A literal host is used as it is and never looked up; a name
is looked up once, and the first literal in the answer is used.

A refusal becomes part of an error by its text. It may have none: to ask for it then ends with an
error of another kind, which is not that of a resolution and which every reading passes on as it is.
-/

namespace WakeConfig

/-- An error with which a part of the program ends: one of its own kind, or a foreign one that comes
up in it and is passed on. -/
inductive Raised (ε : Type) where
  | own (cause : ε)
  | foreign (cause : LookupError)
  deriving Repr, DecidableEq

/-- The error of a part as that of a larger one: an own error is wrapped, a foreign one stays. -/
def Raised.map (wrap : ε → δ) : Raised ε → Raised δ
  | own cause => .own (wrap cause)
  | foreign cause => .foreign cause

/-- What a resolver refuses a name with: an error, a bare value, known by its text, or something
that has no text, so that asking for it raises an error. -/
inductive Refusal where
  | error (cause : LookupError)
  | bare (text : String)
  | textless (raised : LookupError)
  deriving Repr, DecidableEq

/-- The error of a refusal. A bare value is wrapped in one that has its text as message; where there
is no text there is no such error, but the one that is raised. -/
def Refusal.cause : Refusal → Except LookupError LookupError
  | error cause => .ok cause
  | bare text => .ok ⟨"Error", text⟩
  | textless raised => .error raised

/-- The answer of a resolver for one name. -/
inductive HostAnswer where
  | addresses (found : List String)
  | refused (refusal : Refusal)
  deriving Repr, DecidableEq

/-- A resolver of host names: its answer for a name, behind the names that it was asked for
before. -/
abbrev HostResolver := List String → String → HostAnswer

/-- The outcome of a resolution, with the names that were looked up for it. -/
structure Resolution where
  outcome : Except (Raised AddressError) SocketAddress
  lookups : List String

namespace SocketAddress

/-- What the answer for a name makes of an address text. -/
def ofAnswer (address : String) (parts : HostPort) :
    HostAnswer → Except (Raised AddressError) SocketAddress
  | .refused refusal =>
    match refusal.cause with
    | .ok cause => .error (.own ⟨address, .lookupFailed parts.host cause⟩)
    | .error raised => .error (.foreign raised)
  | .addresses found =>
    match found.findSome? fun ip => ofLiteral? ip parts.port with
    | some a => .ok a
    | none => .error (.own ⟨address, .unresolved parts.host⟩)

/-- Resolves an address text by the answers that names have at the time. -/
def resolve (answer : String → HostAnswer) (address : String) : Resolution :=
  match split address with
  | .error e => ⟨.error (.own e), []⟩
  | .ok parts =>
    match ofLiteral? parts.host parts.port with
    | some a => ⟨.ok a, []⟩
    | none => ⟨ofAnswer address parts (answer parts.host), [parts.host]⟩

/-- At most one name is looked up. -/
theorem length_lookups_resolve (answer : String → HostAnswer) (address : String) :
    (resolve answer address).lookups.length ≤ 1 := by
  unfold resolve
  split
  · simp
  · split <;> simp

end SocketAddress

end WakeConfig
