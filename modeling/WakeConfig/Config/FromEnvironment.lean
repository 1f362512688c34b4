import WakeConfig.Environment.Reader

/-!
# Configuration from the environment

The tree that the variables of an environment describe. Every variable but that of the start
command may be missing, and a text that is not of the right type counts as missing. A start
command that is unset or blank is an error; a foreign error that comes up while a name is looked up
is passed on.
-/

namespace WakeConfig.FromEnvironment

open Reader (Source Trace)

/-- Why an environment describes no configuration. A default address that is no address is
reported as well, though none is. -/
inductive EnvironmentError where
  | missingCommand
  | badDefault (cause : AddressError)
  deriving Repr, DecidableEq

/-- The wording of an error. -/
def EnvironmentError.message : EnvironmentError → String
  | missingCommand => "Missing required environment variable: " ++ Default.commandVariable
  | badDefault cause => cause.message

/-- A reading that may end with an error. -/
abbrev Building := ExceptT (Raised EnvironmentError) Reader.Reading

/-- An address of a variable. -/
def address (s : Source) (key fallback : String) : Building SocketAddress := do
  match ← Reader.socketAddress s key fallback with
  | .ok a => pure a
  | .error e => throw (e.map .badDefault)

/-- Seconds, or another number of 32 bits. -/
def seconds (s : Source) (key : String) (fallback : Nat) : Building Nat :=
  Reader.unsigned s Default.maxU32 key fallback

/-- The variables `PUBLIC_`. -/
def front (s : Source) : Building FrontConfig := do
  let d := Default.front
  let address ← address s "PUBLIC_ADDRESS" Default.frontAddress
  let version ← Reader.string s "PUBLIC_VERSION" d.version
  let protocol ← seconds s "PUBLIC_PROTOCOL" d.protocol
  pure { address, version, protocol }

/-- The variables `SERVER_` but for the command, which is given. -/
def server (s : Source) (command : String) : Building ServerConfig := do
  let d := Default.server command
  let directory ← Reader.string s "SERVER_DIRECTORY" d.directory
  let address ← address s "SERVER_ADDRESS" Default.serverAddress
  let freezeProcess ← Reader.boolean s "SERVER_FREEZE_PROCESS" d.freezeProcess
  let wakeOnStart ← Reader.boolean s "SERVER_WAKE_ON_START" d.wakeOnStart
  let wakeOnCrash ← Reader.boolean s "SERVER_WAKE_ON_CRASH" d.wakeOnCrash
  let probeOnStart ← Reader.boolean s "SERVER_PROBE_ON_START" d.probeOnStart
  let forge ← Reader.boolean s "SERVER_FORGE" d.forge
  let startTimeout ← seconds s "SERVER_START_TIMEOUT" d.startTimeout
  let stopTimeout ← seconds s "SERVER_STOP_TIMEOUT" d.stopTimeout
  let wakeWhitelist ← Reader.boolean s "SERVER_WAKE_WHITELIST" d.wakeWhitelist
  let blockBannedIps ← Reader.boolean s "SERVER_BLOCK_BANNED_IPS" d.blockBannedIps
  let dropBannedIps ← Reader.boolean s "SERVER_DROP_BANNED_IPS" d.dropBannedIps
  let sendProxyV2 ← Reader.boolean s "SERVER_SEND_PROXY_V2" d.sendProxyV2
  pure { directory, command, address, freezeProcess, wakeOnStart, wakeOnCrash, probeOnStart,
         forge, startTimeout, stopTimeout, wakeWhitelist, blockBannedIps, dropBannedIps,
         sendProxyV2 }

/-- The variables `TIME_`. -/
def time (s : Source) : Building TimeConfig := do
  let d := Default.time
  let sleepAfter ← seconds s "TIME_SLEEP_AFTER" d.sleepAfter
  let minOnlineTime ← seconds s "TIME_MIN_ONLINE_TIME" d.minOnlineTime
  pure { sleepAfter, minOnlineTime }

/-- The variables `MOTD_`. -/
def motd (s : Source) : Building MotdConfig := do
  let d := Default.motd
  let sleeping ← Reader.string s "MOTD_SLEEPING" d.sleeping
  let starting ← Reader.string s "MOTD_STARTING" d.starting
  let stopping ← Reader.string s "MOTD_STOPPING" d.stopping
  let fromServer ← Reader.boolean s "MOTD_FROM_SERVER" d.fromServer
  pure { sleeping, starting, stopping, fromServer }

/-- The variables `JOIN_KICK_`. -/
def kick (s : Source) : Building KickConfig := do
  let d := Default.kick
  let starting ← Reader.string s "JOIN_KICK_STARTING" d.starting
  let stopping ← Reader.string s "JOIN_KICK_STOPPING" d.stopping
  pure { starting, stopping }

/-- The variables `JOIN_FORWARD_`. -/
def forward (s : Source) : Building ForwardConfig := do
  let address ← address s "JOIN_FORWARD_ADDRESS" Default.forwardAddress
  let sendProxyV2 ← Reader.boolean s "JOIN_FORWARD_SEND_PROXY_V2" Default.forward.sendProxyV2
  pure { address, sendProxyV2 }

/-- The variables `JOIN_LOBBY_`. -/
def lobby (s : Source) : Building LobbyConfig := do
  let d := Default.lobby
  let timeout ← seconds s "JOIN_LOBBY_TIMEOUT" d.timeout
  let message ← Reader.string s "JOIN_LOBBY_MESSAGE" d.message
  let readySound ← Reader.optionalString s "JOIN_LOBBY_READY_SOUND" d.readySound
  pure { timeout, message, readySound }

/-- The variables `JOIN_`. -/
def join (s : Source) : Building JoinConfig := do
  let methods ← Reader.methods s "JOIN_METHODS" (Default.join.methods.map JoinMethod.name)
  let kick ← kick s
  let timeout ← seconds s "JOIN_HOLD_TIMEOUT" Default.hold.timeout
  let forward ← forward s
  let lobby ← lobby s
  pure { methods, kick, hold := { timeout }, forward, lobby }

/-- The variables `LOCKOUT_`. -/
def lockout (s : Source) : Building LockoutConfig := do
  let d := Default.lockout
  let enabled ← Reader.boolean s "LOCKOUT_ENABLED" d.enabled
  let message ← Reader.string s "LOCKOUT_MESSAGE" d.message
  pure { enabled, message }

/-- The variables `RCON_`. -/
def rcon (s : Source) : Building RconConfig := do
  let d := Default.rcon s.platform
  let enabled ← Reader.boolean s "RCON_ENABLED" d.enabled
  let port ← Reader.unsigned s Default.maxU16 "RCON_PORT" d.port
  let password ← Reader.string s "RCON_PASSWORD" d.password
  let randomizePassword ← Reader.boolean s "RCON_RANDOMIZE_PASSWORD" d.randomizePassword
  let sendProxyV2 ← Reader.boolean s "RCON_SEND_PROXY_V2" d.sendProxyV2
  pure { enabled, port, password, randomizePassword, sendProxyV2 }

/-- The variables `ADVANCED_`. -/
def advanced (s : Source) : Building AdvancedConfig := do
  let rewriteServerProperties ← Reader.boolean s "ADVANCED_REWRITE_SERVER_PROPERTIES"
    Default.advanced.rewriteServerProperties
  pure { rewriteServerProperties }

/-- The variables `CONFIG_`. -/
def format (s : Source) : Building FormatConfig := do
  let version ← Reader.optionalString s "CONFIG_VERSION" Default.format.version
  pure { version }

/-- The start command: a text with a character that is not blank, its escapes not yet decoded. -/
def command (s : Source) : Building String := do
  match ← Reader.raw s "SERVER_COMMAND" with
  | none => throw (.own .missingCommand)
  | some text =>
    if Text.trim text.toList = [] then throw (.own .missingCommand)
    else pure (Text.unescape text)

/-- Reads the tree. -/
def tree (s : Source) : Building Config := do
  let command ← command s
  let front ← front s
  let server ← server s command
  let time ← time s
  let motd ← motd s
  let join ← join s
  let lockout ← lockout s
  let rcon ← rcon s
  let advanced ← advanced s
  let format ← format s
  pure { path := none, front, server, time, motd, join, lockout, rcon, advanced, format }

/-- The outcome of reading a configuration, with what was read for it. -/
structure Outcome where
  result : Except (Raised EnvironmentError) Config
  trace : Trace

/-- Reads a configuration from an environment. -/
def read (platform : Platform) (resolver : HostResolver) (environment : Environment) : Outcome :=
  let (result, trace) := (tree ⟨environment, resolver, platform⟩).run.run ⟨[], []⟩
  ⟨result, trace⟩

end WakeConfig.FromEnvironment
