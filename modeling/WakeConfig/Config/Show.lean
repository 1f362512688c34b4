import WakeConfig.Config.Layout
import WakeConfig.Text.Json.Printer

/-!
# Showing a tree

The written form of a tree is JSON with each address as its text. An address is known by its
members, wherever it stands. The summary is seven lines for people.
-/

namespace WakeConfig

namespace Json

/-- Whether a value is the number of version 6. -/
def isV6Number : Json → Bool
  | number n => n = .ofNat Family.v6.number
  | _ => false

/-- The text of an object that is an address: it has a host, which is a string, a port, which is a
number, and a family. -/
def addressText? : Json → Option String
  | object members =>
    match members.lookup "host", members.lookup "port", members.lookup "family" with
    | some (string host), some (number port), some family =>
      let port := port.text
      if isV6Number family then some s!"[{host}]:{port}" else some s!"{host}:{port}"
    | _, _, _ => none
  | _ => none

mutual
/-- Replaces every address by its text. -/
def withAddressTexts (v : Json) : Json :=
  match addressText? v, v with
  | some text, _ => string text
  | none, array items => array (itemsWithAddressTexts items)
  | none, object members => object (membersWithAddressTexts members)
  | none, other => other

/-- Replaces every address in some items by its text. -/
def itemsWithAddressTexts : List Json → List Json
  | [] => []
  | item :: rest => withAddressTexts item :: itemsWithAddressTexts rest

/-- Replaces every address in some members by its text. -/
def membersWithAddressTexts : List (String × Json) → List (String × Json)
  | [] => []
  | (name, v) :: rest => (name, withAddressTexts v) :: membersWithAddressTexts rest
end

end Json

namespace Config

/-- The written form of a tree. -/
def render (c : Config) : String := String.ofList c.toJson.withAddressTexts.indented

/-- The names of the join methods with commas between them. -/
def methodText (methods : List JoinMethod) : String :=
  if methods.isEmpty then "(none)" else ", ".intercalate (methods.map JoinMethod.name)

/-- The lines of the summary. -/
def summary (c : Config) : List String :=
  [ "Source:           " ++ c.path.getD "environment variables",
    "Server command:   " ++ c.server.command,
    "Server directory: " ++ c.server.directory,
    "Server address:   " ++ c.server.address.format,
    "Public address:   " ++ c.front.address.format,
    "Sleep after:      " ++ toString c.time.sleepAfter ++ "s",
    "Join methods:     " ++ methodText c.join.methods ]

end Config

end WakeConfig
