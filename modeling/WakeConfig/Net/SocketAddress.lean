import WakeConfig.Net.IpAddress

/-!
# Socket addresses

An address text is `host:port`, or `[host]:port` for a version 6 host. Splitting gives the host
and the port, parsing also asks for a literal host, and formatting writes an address back.
-/

namespace WakeConfig

/-- A literal address and a port. -/
structure SocketAddress where
  host : String
  port : Nat
  family : Family
  deriving Repr, DecidableEq, Inhabited

/-- A host, which may be a name, and a port. -/
structure HostPort where
  host : String
  port : Nat
  deriving Repr, DecidableEq

/-- An error from outside: that of a failed lookup, or one that comes up on the way. -/
structure LookupError where
  name : String
  message : String
  deriving Repr, DecidableEq

/-- What is wrong with an address text. -/
inductive AddressFault where
  | bracketForm
  | notV6
  | missingPort
  | hostForm
  | badPort
  | portRange
  | notLiteral
  | lookupFailed (host : String) (cause : LookupError)
  | unresolved (host : String)
  deriving Repr, DecidableEq

/-- An address text with its fault. -/
structure AddressError where
  address : String
  fault : AddressFault
  deriving Repr, DecidableEq

/-- The wording of an address error. -/
def AddressError.message (e : AddressError) : String :=
  let address := e.address
  match e.fault with
  | .bracketForm => s!"Invalid address '{address}': expected [host]:port"
  | .notV6 => s!"Invalid IPv6 address in '{address}'"
  | .missingPort => s!"Invalid address '{address}': missing port"
  | .hostForm => s!"Invalid address '{address}': expected host:port"
  | .badPort => s!"Invalid port in address '{address}'"
  | .portRange => s!"Port out of range in address '{address}'"
  | .notLiteral => s!"Host in '{address}' is not an IP address"
  | .lookupFailed host cause =>
    let reason := cause.message
    s!"Failed to resolve host '{host}' in '{address}': {reason}"
  | .unresolved host => s!"Host '{host}' in '{address}' did not resolve to any address"

/-- The error behind an address error: that of a failed lookup. -/
def AddressError.cause? (e : AddressError) : Option LookupError :=
  match e.fault with
  | .lookupFailed _ cause => some cause
  | _ => none

namespace SocketAddress

/-! ## Splitting -/

/-- The largest port. -/
def maxPort : Nat := 65535

/-- Reads a port of one to five digits. -/
def port? (s : List Char) : Except AddressFault Nat :=
  if !s.isEmpty && s.length ≤ 5 && s.all Text.isDigit then
    if Text.digitsValue s ≤ maxPort then .ok (Text.digitsValue s) else .error .portRange
  else .error .badPort

/-- Splits what follows an opening bracket: a version 6 host up to the first closing bracket, a
colon, a port. -/
def splitBracketed (s : List Char) : Except AddressFault HostPort :=
  match s.dropWhile (· != ']') with
  | ']' :: ':' :: port =>
    let host := String.ofList (s.takeWhile (· != ']'))
    if IpAddress.family? host = some .v6 then (port? port).map fun n => ⟨host, n⟩
    else .error .notV6
  | _ => .error .bracketForm

/-- Splits a text without brackets at its last colon; the host is not empty and has no colon. -/
def splitPlain (s : List Char) : Except AddressFault HostPort :=
  if ':' ∉ s then .error .missingPort
  else
    let port := (s.reverse.takeWhile (· != ':')).reverse
    let host := s.take (s.length - port.length - 1)
    if host.isEmpty || host.contains ':' then .error .hostForm
    else (port? port).map fun n => ⟨String.ofList host, n⟩

/-- Splits an address text into host and port. -/
def split (address : String) : Except AddressError HostPort :=
  let parts := match address.toList with
    | '[' :: rest => splitBracketed rest
    | s => splitPlain s
  parts.mapError fun fault => ⟨address, fault⟩

/-! ## Literal addresses -/

/-- The socket address of a literal host and a port. -/
def ofLiteral? (host : String) (port : Nat) : Option SocketAddress :=
  (IpAddress.family? host).map fun family => ⟨host, port, family⟩

/-- Parses an address text whose host is a literal. -/
def parse (address : String) : Except AddressError SocketAddress := do
  let parts ← split address
  match ofLiteral? parts.host parts.port with
  | some a => .ok a
  | none => .error ⟨address, .notLiteral⟩

/-- Writes an address, a version 6 host in brackets. -/
def format (a : SocketAddress) : String :=
  let host := a.host
  let port := toString a.port
  match a.family with
  | .v6 => s!"[{host}]:{port}"
  | .v4 => s!"{host}:{port}"

end SocketAddress

end WakeConfig
