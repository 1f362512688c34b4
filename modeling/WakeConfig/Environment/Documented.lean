import WakeConfig.Config.Default

/-!
# The documented variables

Every variable that is read, with what it is for, its type and the text of its default.
-/

namespace WakeConfig

/-- The type of a variable. -/
inductive VariableType where
  | string
  | boolean
  | u16
  | u32
  | address
  | list
  deriving Repr, DecidableEq

/-- The word for a type. -/
def VariableType.word : VariableType → String
  | string => "string"
  | boolean => "boolean"
  | u16 => "u16"
  | u32 => "u32"
  | address => "address"
  | list => "list"

/-- The documentation of a variable. -/
structure VariableDoc where
  name : String
  description : String
  type : VariableType
  default? : Option String
  deriving Repr, DecidableEq

namespace VariableDoc

/-- A variable of text. -/
def text (key description : String) (default? : Option String) : VariableDoc :=
  ⟨Default.variableStart ++ key, description, .string, default?⟩

/-- A variable of a truth value. -/
def flag (key description : String) (default : Bool) : VariableDoc :=
  ⟨Default.variableStart ++ key, description, .boolean, some (if default then "true" else "false")⟩

/-- A variable of a number of 32 bits. -/
def number (key description : String) (default : Nat) : VariableDoc :=
  ⟨Default.variableStart ++ key, description, .u32, some (toString default)⟩

/-- A variable of a number of 16 bits. -/
def short (key description : String) (default : Nat) : VariableDoc :=
  ⟨Default.variableStart ++ key, description, .u16, some (toString default)⟩

/-- A variable of an address. -/
def address (key description default : String) : VariableDoc :=
  ⟨Default.variableStart ++ key, description, .address, some default⟩

/-- A variable of a list. -/
def list (key description : String) (default : List String) : VariableDoc :=
  ⟨Default.variableStart ++ key, description, .list, some (",".intercalate default)⟩

/-- All variables. -/
def all (platform : Platform) : List VariableDoc :=
  let rcon := Default.rcon platform
  let server := Default.server ""
  let join := Default.join
  [ address "PUBLIC_ADDRESS" "Public address to listen on" Default.frontAddress,
    text "PUBLIC_VERSION" "Protocol version name hint" (some Default.front.version),
    number "PUBLIC_PROTOCOL" "Protocol version number hint" Default.front.protocol,
    text "SERVER_COMMAND" "Command to start the server (required)" none,
    text "SERVER_DIRECTORY" "Server working directory" (some server.directory),
    address "SERVER_ADDRESS" "Address the server listens on" Default.serverAddress,
    flag "SERVER_FREEZE_PROCESS" "Freeze instead of stopping the server" server.freezeProcess,
    flag "SERVER_WAKE_ON_START" "Wake server when lazymc starts" server.wakeOnStart,
    flag "SERVER_WAKE_ON_CRASH" "Wake server after a crash" server.wakeOnCrash,
    flag "SERVER_PROBE_ON_START" "Probe server details on start" server.probeOnStart,
    flag "SERVER_FORGE" "Server runs Forge" server.forge,
    number "SERVER_START_TIMEOUT" "Start timeout in seconds" server.startTimeout,
    number "SERVER_STOP_TIMEOUT" "Stop timeout in seconds" server.stopTimeout,
    flag "SERVER_WAKE_WHITELIST" "Only whitelisted players wake the server" server.wakeWhitelist,
    flag "SERVER_BLOCK_BANNED_IPS" "Block banned IPs" server.blockBannedIps,
    flag "SERVER_DROP_BANNED_IPS" "Drop connections from banned IPs" server.dropBannedIps,
    flag "SERVER_SEND_PROXY_V2" "Send PROXY v2 header to the server" server.sendProxyV2,
    number "TIME_SLEEP_AFTER" "Idle seconds before sleeping" Default.time.sleepAfter,
    number "TIME_MIN_ONLINE_TIME" "Minimum online seconds after waking"
      Default.time.minOnlineTime,
    text "MOTD_SLEEPING" "MOTD while sleeping" (some Default.motd.sleeping),
    text "MOTD_STARTING" "MOTD while starting" (some Default.motd.starting),
    text "MOTD_STOPPING" "MOTD while stopping" (some Default.motd.stopping),
    flag "MOTD_FROM_SERVER" "Use the server MOTD once known" Default.motd.fromServer,
    list "JOIN_METHODS" "Join methods in order (kick, hold, forward, lobby)"
      (join.methods.map JoinMethod.name),
    text "JOIN_KICK_STARTING" "Kick message while starting" (some join.kick.starting),
    text "JOIN_KICK_STOPPING" "Kick message while stopping" (some join.kick.stopping),
    number "JOIN_HOLD_TIMEOUT" "Seconds to hold a joining client" join.hold.timeout,
    address "JOIN_FORWARD_ADDRESS" "Address to forward clients to" Default.forwardAddress,
    flag "JOIN_FORWARD_SEND_PROXY_V2" "Send PROXY v2 header to the forward target"
      join.forward.sendProxyV2,
    number "JOIN_LOBBY_TIMEOUT" "Maximum seconds in the lobby" join.lobby.timeout,
    text "JOIN_LOBBY_MESSAGE" "Lobby banner message" (some join.lobby.message),
    text "JOIN_LOBBY_READY_SOUND" "Sound when the server is ready, empty for none"
      join.lobby.readySound,
    flag "LOCKOUT_ENABLED" "Kick every connecting player" Default.lockout.enabled,
    text "LOCKOUT_MESSAGE" "Lockout kick message" (some Default.lockout.message),
    flag "RCON_ENABLED" "Sleep the server through RCON" rcon.enabled,
    short "RCON_PORT" "Server RCON port" rcon.port,
    text "RCON_PASSWORD" "Server RCON password" (some rcon.password),
    flag "RCON_RANDOMIZE_PASSWORD" "Randomize the RCON password on each start"
      rcon.randomizePassword,
    flag "RCON_SEND_PROXY_V2" "Send PROXY v2 header to RCON" rcon.sendProxyV2,
    flag "ADVANCED_REWRITE_SERVER_PROPERTIES" "Rewrite server.properties"
      Default.advanced.rewriteServerProperties,
    text "CONFIG_VERSION" "lazymc version the configuration is for" none ]

end VariableDoc

end WakeConfig
