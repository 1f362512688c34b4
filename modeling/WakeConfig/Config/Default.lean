import WakeConfig.Config.Basic

/-!
# Default settings

The value of every setting that is not given. The start command has none and must be given. One
default depends on the platform: on Windows, where the process of the server cannot be frozen, the
remote console puts it to sleep.
-/

namespace WakeConfig

/-- What a program runs on, as far as defaults depend on it. -/
inductive Platform where
  | windows
  | other
  deriving Repr, DecidableEq, Inhabited

namespace Default

/-- The file that is looked for when none is named. -/
def configFile : String := "lazymc.toml"

/-- The least version of a configuration that needs no change. -/
def configVersion : String := "0.2.8"

/-- The start of the name of every variable that is read. -/
def variableStart : String := "LAZYMC_"

/-- The variable of the start command. -/
def commandVariable : String := "LAZYMC_SERVER_COMMAND"

/-- The largest 16-bit number. -/
def maxU16 : Nat := 0xFFFF

/-- The largest 32-bit number. -/
def maxU32 : Nat := 0xFFFFFFFF

/-- The text of the address that players connect to. -/
def frontAddress : String := "0.0.0.0:25565"

/-- The text of the address of the server. -/
def serverAddress : String := "127.0.0.1:25566"

/-- The text of the address that connections are forwarded to. -/
def forwardAddress : String := "127.0.0.1:25565"

/-- The side that players see. -/
def front : FrontConfig where
  address := ⟨"0.0.0.0", 25565, .v4⟩
  version := "1.20.3"
  protocol := 765

/-- The server process, started by a command. -/
def server (command : String) : ServerConfig where
  directory := "."
  command := command
  address := ⟨"127.0.0.1", 25566, .v4⟩
  freezeProcess := true
  wakeOnStart := false
  wakeOnCrash := false
  probeOnStart := false
  forge := false
  startTimeout := 300
  stopTimeout := 150
  wakeWhitelist := true
  blockBannedIps := true
  dropBannedIps := false
  sendProxyV2 := false

/-- When the server may sleep. -/
def time : TimeConfig where
  sleepAfter := 60
  minOnlineTime := 60

/-- The texts of the server list. -/
def motd : MotdConfig where
  sleeping := "☠ Server is sleeping\n§2☻ Join to start it up"
  starting := "§2☻ Server is starting...\n§7⌛ Please wait..."
  stopping := "☠ Server going to sleep...\n⌛ Please wait..."
  fromServer := false

/-- The texts to disconnect with. -/
def kick : KickConfig where
  starting := "Server is starting... §c♥§r\n\nThis may take some time.\n\nPlease try to reconnect in a minute."
  stopping := "Server is going to sleep... §7☠§r\n\nPlease try to reconnect in a minute to wake it again."

/-- How long a connection is kept open. -/
def hold : HoldConfig where
  timeout := 25

/-- Where a connection is passed on to. -/
def forward : ForwardConfig where
  address := ⟨"127.0.0.1", 25565, .v4⟩
  sendProxyV2 := false

/-- The world to wait in. -/
def lobby : LobbyConfig where
  timeout := 600
  message := "§2Server is starting\n§7⌛ Please wait..."
  readySound := some "block.note_block.chime"

/-- What to do with a player who joins: hold the connection, and disconnect when that fails. -/
def join : JoinConfig where
  methods := [.hold, .kick]
  kick := kick
  hold := hold
  forward := forward
  lobby := lobby

/-- Keeping every player out. -/
def lockout : LockoutConfig where
  enabled := false
  message := "Server is closed §7☠§r\n\nPlease come back another time."

/-- The remote console. -/
def rcon (platform : Platform) : RconConfig where
  enabled := platform == .windows
  port := 25575
  password := ""
  randomizePassword := true
  sendProxyV2 := false

/-- Settings for special needs. -/
def advanced : AdvancedConfig where
  rewriteServerProperties := true

/-- No declared version. -/
def format : FormatConfig where
  version := none

/-! ## The address texts -/

theorem parse_frontAddress : SocketAddress.parse frontAddress = .ok front.address := by
  rfl

theorem parse_serverAddress (command : String) :
    SocketAddress.parse serverAddress = .ok (server command).address := by
  rfl

theorem parse_forwardAddress : SocketAddress.parse forwardAddress = .ok forward.address := by
  rfl

end Default

end WakeConfig
