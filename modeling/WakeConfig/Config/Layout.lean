import WakeConfig.Config.Basic
import WakeConfig.Config.Part

/-!
# The layout of the tree

The names of the sections and fields and their order. A setting that has no value has no field. A
tree that was built from defaults may hold the default parts themselves: these are common to all
trees and sealed from the start.
-/

namespace WakeConfig

/-- Which parts of a tree are the default parts themselves. -/
structure CommonParts where
  frontAddress : Bool
  serverAddress : Bool
  methods : Bool
  joinSections : Bool
  forwardAddress : Bool
  deriving Repr, DecidableEq

/-- A tree of its own parts. -/
def CommonParts.none : CommonParts := ⟨false, false, false, false, false⟩

namespace Part

/-- A text. -/
def text (s : String) : Part := value (.string s)

/-- A truth value. -/
def flag (b : Bool) : Part := value (.bool b)

/-- A number. -/
def number (n : Nat) : Part := value (.ofNat n)

/-- A field that is left out when it has no value. -/
def optionalText (name : String) : Option String → List (String × Part)
  | none => []
  | some s => [(name, text s)]

end Part

open WakeConfig.Part (text flag number optionalText)

/-- The layout of an address. -/
def SocketAddress.part (isCommon : Bool) (a : SocketAddress) : Part :=
  .record isCommon
    [ ("host", text a.host), ("port", number a.port), ("family", number a.family.number) ]

/-- The layout of the section `public`. -/
def FrontConfig.part (common : CommonParts) (c : FrontConfig) : Part :=
  .record false
    [ ("address", c.address.part common.frontAddress),
      ("version", text c.version),
      ("protocol", number c.protocol) ]

/-- The layout of the section `server`. -/
def ServerConfig.part (common : CommonParts) (c : ServerConfig) : Part :=
  .record false
    [ ("directory", text c.directory),
      ("command", text c.command),
      ("address", c.address.part common.serverAddress),
      ("freeze_process", flag c.freezeProcess),
      ("wake_on_start", flag c.wakeOnStart),
      ("wake_on_crash", flag c.wakeOnCrash),
      ("probe_on_start", flag c.probeOnStart),
      ("forge", flag c.forge),
      ("start_timeout", number c.startTimeout),
      ("stop_timeout", number c.stopTimeout),
      ("wake_whitelist", flag c.wakeWhitelist),
      ("block_banned_ips", flag c.blockBannedIps),
      ("drop_banned_ips", flag c.dropBannedIps),
      ("send_proxy_v2", flag c.sendProxyV2) ]

/-- The layout of the section `time`. -/
def TimeConfig.part (c : TimeConfig) : Part :=
  .record false
    [ ("sleep_after", number c.sleepAfter), ("min_online_time", number c.minOnlineTime) ]

/-- The layout of the section `motd`. -/
def MotdConfig.part (c : MotdConfig) : Part :=
  .record false
    [ ("sleeping", text c.sleeping),
      ("starting", text c.starting),
      ("stopping", text c.stopping),
      ("from_server", flag c.fromServer) ]

/-- The layout of the section `join.kick`. -/
def KickConfig.part (isCommon : Bool) (c : KickConfig) : Part :=
  .record isCommon [("starting", text c.starting), ("stopping", text c.stopping)]

/-- The layout of the section `join.hold`. -/
def HoldConfig.part (isCommon : Bool) (c : HoldConfig) : Part :=
  .record isCommon [("timeout", number c.timeout)]

/-- The layout of the section `join.forward`. -/
def ForwardConfig.part (common : CommonParts) (c : ForwardConfig) : Part :=
  .record common.joinSections
    [ ("address", c.address.part common.forwardAddress), ("send_proxy_v2", flag c.sendProxyV2) ]

/-- The layout of the section `join.lobby`. -/
def LobbyConfig.part (isCommon : Bool) (c : LobbyConfig) : Part :=
  .record isCommon
    ([ ("timeout", number c.timeout), ("message", text c.message) ]
      ++ optionalText "ready_sound" c.readySound)

/-- The layout of the section `join`. -/
def JoinConfig.part (common : CommonParts) (c : JoinConfig) : Part :=
  .record false
    [ ("methods", .list common.methods (c.methods.map fun m => text m.name)),
      ("kick", c.kick.part common.joinSections),
      ("hold", c.hold.part common.joinSections),
      ("forward", c.forward.part common),
      ("lobby", c.lobby.part common.joinSections) ]

/-- The layout of the section `lockout`. -/
def LockoutConfig.part (c : LockoutConfig) : Part :=
  .record false [("enabled", flag c.enabled), ("message", text c.message)]

/-- The layout of the section `rcon`. -/
def RconConfig.part (c : RconConfig) : Part :=
  .record false
    [ ("enabled", flag c.enabled),
      ("port", number c.port),
      ("password", text c.password),
      ("randomize_password", flag c.randomizePassword),
      ("send_proxy_v2", flag c.sendProxyV2) ]

/-- The layout of the section `advanced`. -/
def AdvancedConfig.part (c : AdvancedConfig) : Part :=
  .record false [("rewrite_server_properties", flag c.rewriteServerProperties)]

/-- The layout of the section `config`. -/
def FormatConfig.part (c : FormatConfig) : Part :=
  .record false (optionalText "version" c.version)

namespace Config

/-- The layout of the whole tree. -/
def part (common : CommonParts) (c : Config) : Part :=
  .record false
    ([ ("public", c.front.part common),
       ("server", c.server.part common),
       ("time", c.time.part),
       ("motd", c.motd.part),
       ("join", c.join.part common),
       ("lockout", c.lockout.part),
       ("rcon", c.rcon.part),
       ("advanced", c.advanced.part),
       ("config", c.format.part) ]
      ++ optionalText "path" c.path)

/-- The tree as a value. -/
def toJson (c : Config) : Json := (c.part .none).toJson

end Config

end WakeConfig
