import WakeConfig.Config.Default
import WakeConfig.Config.Error
import WakeConfig.Config.Layout
import WakeConfig.Net.Resolve
import WakeConfig.Toml.Document

/-!
# Configuration from a file

The tree that a configuration file describes. Fields are checked strictly and in a fixed order,
and the first error ends the reading; what is absent takes its default, and what is not known is
not looked at. Host names are looked up on the way, and the names are kept in their order. A foreign
error that comes up while a name is looked up ends the reading as well, and is passed on.
-/

namespace WakeConfig.FromToml

open Toml (Value Table)

/-! ## Values -/

/-- A value that must be a string, and not one that stands for a float. -/
def string (field : String) : Value → Except ConfigError String
  | .string text =>
    if Toml.FloatLiteral.isMarked text then .error (.wrongType field .string .float) else .ok text
  | v => .error (.wrongType field .string v.found)

/-- A value that must be a truth value. -/
def boolean (field : String) : Value → Except ConfigError Bool
  | .boolean b => .ok b
  | v => .error (.wrongType field .boolean v.found)

/-- The whole number of a value: that of an integer as a double, or that of a float that was left
unfinished and is whole. -/
def whole? : Value → Option Int
  | .integer value _ => some (Binary64.roundInt value)
  | .float token => Toml.FloatValue.whole? token
  | _ => none

/-- A value that must be a whole number from zero to `max`. -/
def unsigned (max : Nat) (field : String) (v : Value) : Except ConfigError Nat :=
  match whole? v with
  | none => .error (.wrongType field .integer v.found)
  | some n => if n < 0 ∨ max < n then .error (.outOfRange field max n) else .ok n.toNat

/-- A value that must name a join method. -/
def method (field : String) (v : Value) : Except ConfigError JoinMethod := do
  let name ← string field v
  match JoinMethod.ofName? name with
  | some m => .ok m
  | none => .error (.unknownMethod field name)

/-- The items of an array that must name join methods, counted from `index`. -/
def methodItems (field : String) : Nat → List Value → Except ConfigError (List JoinMethod)
  | _, [] => .ok []
  | index, item :: items => do
    let first ← method s!"{field}[{index}]" item
    let rest ← methodItems field (index + 1) items
    .ok (first :: rest)

/-- A value that must be an array of names of join methods. -/
def methods (field : String) : Value → Except ConfigError (List JoinMethod)
  | .array items => methodItems field 0 items
  | .tables elements =>
    methodItems field 0 (elements.map fun entries => .table .passage entries)
  | v => .error (.wrongType field .array v.found)

/-! ## Fields and sections -/

/-- A field of a section, or its default where it is absent. -/
def field (t : Table) (place key : String) (fallback : α)
    (read : String → Value → Except ConfigError α) : Except ConfigError α :=
  match t.get? key with
  | none => .ok fallback
  | some v => read s!"{place}.{key}" v

/-- A section, which must be a table where it is present. -/
def subtable (t? : Option Table) (key name : String) : Except ConfigError (Option Table) :=
  match t?.bind fun t => t.get? key with
  | none => .ok none
  | some (.table _ entries) => .ok (some entries)
  | some v => .error (.wrongType name .table v.found)

/-- A reading that may look up names and ends with the first error. -/
abbrev Reading := ExceptT (Raised ConfigError) (StateM (List String))

/-- A reading without lookups. -/
def checked (e : Except ConfigError α) : Reading α := ExceptT.mk (pure (e.mapError .own))

/-- Resolves the address text of a field. -/
def resolved (resolver : HostResolver) (name text : String) : Reading SocketAddress := do
  let r := SocketAddress.resolve (resolver (← get)) text
  modify (· ++ r.lookups)
  match r.outcome with
  | .ok a => pure a
  | .error e => throw (e.map (.badAddress name))

/-- An address field of a section, or its default where it is absent. -/
def address (resolver : HostResolver) (t : Table) (place key : String)
    (fallback : SocketAddress) : Reading SocketAddress :=
  match t.get? key with
  | none => pure fallback
  | some v => do
    let text ← checked (string s!"{place}.{key}" v)
    resolved resolver s!"{place}.{key}" text

/-- The section `public`. -/
def front (resolver : HostResolver) : Option Table → Reading FrontConfig
  | none => pure Default.front
  | some t => do
    let d := Default.front
    let address ← address resolver t "public" "address" d.address
    let version ← checked (field t "public" "version" d.version string)
    let protocol ← checked (field t "public" "protocol" d.protocol (unsigned Default.maxU32))
    pure { address, version, protocol }

/-- The section `server`, which must be present and have a command. -/
def server (resolver : HostResolver) : Option Table → Reading ServerConfig
  | none => throw (.own (.missingSection "server"))
  | some t =>
    match t.get? "command" with
    | none => throw (.own (.missingField "server.command"))
    | some command => do
      let d := Default.server ""
      let flag key fallback := checked (field t "server" key fallback boolean)
      let seconds key fallback :=
        checked (field t "server" key fallback (unsigned Default.maxU32))
      let directory ← checked (field t "server" "directory" d.directory string)
      let command ← checked (string "server.command" command)
      let address ← address resolver t "server" "address" d.address
      let freezeProcess ← flag "freeze_process" d.freezeProcess
      let wakeOnStart ← flag "wake_on_start" d.wakeOnStart
      let wakeOnCrash ← flag "wake_on_crash" d.wakeOnCrash
      let probeOnStart ← flag "probe_on_start" d.probeOnStart
      let forge ← flag "forge" d.forge
      let startTimeout ← seconds "start_timeout" d.startTimeout
      let stopTimeout ← seconds "stop_timeout" d.stopTimeout
      let wakeWhitelist ← flag "wake_whitelist" d.wakeWhitelist
      let blockBannedIps ← flag "block_banned_ips" d.blockBannedIps
      let dropBannedIps ← flag "drop_banned_ips" d.dropBannedIps
      let sendProxyV2 ← flag "send_proxy_v2" d.sendProxyV2
      pure { directory, command, address, freezeProcess, wakeOnStart, wakeOnCrash, probeOnStart,
             forge, startTimeout, stopTimeout, wakeWhitelist, blockBannedIps, dropBannedIps,
             sendProxyV2 }

/-- The key of the least online time: the longer name counts where the shorter one is absent. -/
def minOnlineKey (t : Table) : String :=
  if (t.get? "min_online_time").isSome then "min_online_time" else "minimum_online_time"

/-- The section `time`. -/
def time : Option Table → Except ConfigError TimeConfig
  | none => .ok Default.time
  | some t => do
    let d := Default.time
    let sleepAfter ← field t "time" "sleep_after" d.sleepAfter (unsigned Default.maxU32)
    let minOnlineTime ←
      field t "time" (minOnlineKey t) d.minOnlineTime (unsigned Default.maxU32)
    .ok { sleepAfter, minOnlineTime }

/-- The section `motd`. -/
def motd : Option Table → Except ConfigError MotdConfig
  | none => .ok Default.motd
  | some t => do
    let d := Default.motd
    let sleeping ← field t "motd" "sleeping" d.sleeping string
    let starting ← field t "motd" "starting" d.starting string
    let stopping ← field t "motd" "stopping" d.stopping string
    let fromServer ← field t "motd" "from_server" d.fromServer boolean
    .ok { sleeping, starting, stopping, fromServer }

/-- The section `join.kick`. -/
def kick : Option Table → Except ConfigError KickConfig
  | none => .ok Default.kick
  | some t => do
    let d := Default.kick
    let starting ← field t "join.kick" "starting" d.starting string
    let stopping ← field t "join.kick" "stopping" d.stopping string
    .ok { starting, stopping }

/-- The section `join.hold`. -/
def hold : Option Table → Except ConfigError HoldConfig
  | none => .ok Default.hold
  | some t => do
    let timeout ← field t "join.hold" "timeout" Default.hold.timeout (unsigned Default.maxU32)
    .ok { timeout }

/-- The section `join.forward`. -/
def forward (resolver : HostResolver) : Option Table → Reading ForwardConfig
  | none => pure Default.forward
  | some t => do
    let d := Default.forward
    let address ← address resolver t "join.forward" "address" d.address
    let sendProxyV2 ← checked (field t "join.forward" "send_proxy_v2" d.sendProxyV2 boolean)
    pure { address, sendProxyV2 }

/-- The section `join.lobby`. -/
def lobby : Option Table → Except ConfigError LobbyConfig
  | none => .ok Default.lobby
  | some t => do
    let d := Default.lobby
    let timeout ← field t "join.lobby" "timeout" d.timeout (unsigned Default.maxU32)
    let message ← field t "join.lobby" "message" d.message string
    let readySound ← field t "join.lobby" "ready_sound" d.readySound fun name v =>
      (string name v).map some
    .ok { timeout, message, readySound }

/-- The section `join` with its sections. -/
def join (resolver : HostResolver) : Option Table → Reading JoinConfig
  | none => pure Default.join
  | some t => do
    let methods ← checked (field t "join" "methods" Default.join.methods methods)
    let kick ← checked (subtable (some t) "kick" "join.kick" >>= kick)
    let hold ← checked (subtable (some t) "hold" "join.hold" >>= hold)
    let forwardTable ← checked (subtable (some t) "forward" "join.forward")
    let forward ← forward resolver forwardTable
    let lobby ← checked (subtable (some t) "lobby" "join.lobby" >>= lobby)
    pure { methods, kick, hold, forward, lobby }

/-- The section `lockout`. -/
def lockout : Option Table → Except ConfigError LockoutConfig
  | none => .ok Default.lockout
  | some t => do
    let d := Default.lockout
    let enabled ← field t "lockout" "enabled" d.enabled boolean
    let message ← field t "lockout" "message" d.message string
    .ok { enabled, message }

/-- The section `rcon`. -/
def rcon (platform : Platform) : Option Table → Except ConfigError RconConfig
  | none => .ok (Default.rcon platform)
  | some t => do
    let d := Default.rcon platform
    let enabled ← field t "rcon" "enabled" d.enabled boolean
    let port ← field t "rcon" "port" d.port (unsigned Default.maxU16)
    let password ← field t "rcon" "password" d.password string
    let randomizePassword ← field t "rcon" "randomize_password" d.randomizePassword boolean
    let sendProxyV2 ← field t "rcon" "send_proxy_v2" d.sendProxyV2 boolean
    .ok { enabled, port, password, randomizePassword, sendProxyV2 }

/-- The section `advanced`. -/
def advanced : Option Table → Except ConfigError AdvancedConfig
  | none => .ok Default.advanced
  | some t => do
    let rewriteServerProperties ← field t "advanced" "rewrite_server_properties"
      Default.advanced.rewriteServerProperties boolean
    .ok { rewriteServerProperties }

/-- The section `config`. -/
def format : Option Table → Except ConfigError FormatConfig
  | none => .ok Default.format
  | some t => do
    let version ← field t "config" "version" Default.format.version fun name v =>
      (string name v).map some
    .ok { version }

/-! ## The whole tree -/

/-- Reads the tree from the table of a document. -/
def tree (platform : Platform) (resolver : HostResolver) (t : Table) : Reading Config := do
  let part key := checked (subtable (some t) key key)
  let front ← part "public" >>= front resolver
  let server ← part "server" >>= server resolver
  let time ← checked (subtable (some t) "time" "time" >>= time)
  let motd ← checked (subtable (some t) "motd" "motd" >>= motd)
  let join ← part "join" >>= join resolver
  let lockout ← checked (subtable (some t) "lockout" "lockout" >>= lockout)
  let rcon ← checked (subtable (some t) "rcon" "rcon" >>= rcon platform)
  let advanced ← checked (subtable (some t) "advanced" "advanced" >>= advanced)
  let format ← checked (subtable (some t) "config" "config" >>= format)
  pure { path := none, front, server, time, motd, join, lockout, rcon, advanced, format }

/-- The section of a table under a key, if it is one. -/
def sectionTable? (t : Table) (key : String) : Option Table :=
  match t.get? key with
  | some (.table _ entries) => some entries
  | _ => none

/-- Whether a section is missing or has no entry under a key. -/
def lacks (t? : Option Table) (key : String) : Bool := (t?.bind fun t => t.get? key).isNone

/-- The default parts that the tree of a table holds: the default of each address and list that is
not given, and the sections of a join section that is not there. -/
def common (t : Table) : CommonParts where
  frontAddress := lacks (sectionTable? t "public") "address"
  serverAddress := lacks (sectionTable? t "server") "address"
  methods := lacks (sectionTable? t "join") "methods"
  joinSections := (sectionTable? t "join").isNone
  forwardAddress :=
    lacks ((sectionTable? t "join").bind fun j => sectionTable? j "forward") "address"

/-- The outcome of reading a configuration: the tree, the default parts in it, and the names that
were looked up. -/
structure Outcome where
  result : Except (Raised ConfigError) Config
  common : CommonParts
  lookups : List String

/-- Builds the tree of a table. -/
def build (platform : Platform) (resolver : HostResolver) (t : Table) : Outcome :=
  let (result, lookups) := (tree platform resolver t).run.run []
  ⟨result, common t, lookups⟩

/-- The table of a text: it is read as it stands, and where it has floats it is read again with
the floats marked. -/
def table? (text : String) : Option Table :=
  let plain := text.toList
  match Toml.read? plain with
  | none => none
  | some t =>
    let marked := Toml.FloatLiteral.mark plain
    if marked = plain then some t else Toml.read? marked

/-- What is refused of a text that has no table: the text as it stands, or else the one with the
floats marked. -/
def refusedText (text : String) : String :=
  if (Toml.read? text.toList).isNone then text
  else String.ofList (Toml.FloatLiteral.mark text.toList)

/-- Reads a configuration from the text of a file. -/
def parse (platform : Platform) (resolver : HostResolver) (text : String) : Outcome :=
  match table? text with
  | none => ⟨.error (.own (.notToml (refusedText text))), .none, []⟩
  | some t => build platform resolver t

end WakeConfig.FromToml
