import WakeConfig.Net.SocketAddress

/-!
# The configuration tree

What the proxy is told: the address it listens on and what it shows while the server sleeps, how
to run the server, when to put it to sleep, what to do with players that join meanwhile, and how
to reach the server's console. Times are in seconds.
-/

namespace WakeConfig

/-- A way to occupy a player who joins while the server is not ready. -/
inductive JoinMethod where
  | kick
  | hold
  | forward
  | lobby
  deriving Repr, DecidableEq, Inhabited

namespace JoinMethod

/-- All methods. -/
def all : List JoinMethod := [kick, hold, forward, lobby]

/-- The name of a method. -/
def name : JoinMethod → String
  | kick => "kick"
  | hold => "hold"
  | forward => "forward"
  | lobby => "lobby"

/-- The method of a name. -/
def ofName? (s : String) : Option JoinMethod := all.find? fun m => m.name == s

/-- A method is found by its name. -/
@[simp] theorem ofName?_name (m : JoinMethod) : ofName? m.name = some m := by
  cases m <;> decide

/-- A name finds the method that has it. -/
theorem eq_name_of_ofName? {s : String} {m : JoinMethod} (h : ofName? s = some m) :
    s = m.name := by
  have hname := List.find?_some h
  exact (beq_iff_eq.1 hname).symm

end JoinMethod

/-- The side that players see. -/
structure FrontConfig where
  address : SocketAddress
  version : String
  protocol : Nat
  deriving Repr, DecidableEq

/-- The server process. -/
structure ServerConfig where
  directory : String
  command : String
  address : SocketAddress
  freezeProcess : Bool
  wakeOnStart : Bool
  wakeOnCrash : Bool
  probeOnStart : Bool
  forge : Bool
  startTimeout : Nat
  stopTimeout : Nat
  wakeWhitelist : Bool
  blockBannedIps : Bool
  dropBannedIps : Bool
  sendProxyV2 : Bool
  deriving Repr, DecidableEq

/-- When the server may sleep. -/
structure TimeConfig where
  sleepAfter : Nat
  minOnlineTime : Nat
  deriving Repr, DecidableEq

/-- The texts of the server list. -/
structure MotdConfig where
  sleeping : String
  starting : String
  stopping : String
  fromServer : Bool
  deriving Repr, DecidableEq

/-- Joining by `kick`: the texts to disconnect with. -/
structure KickConfig where
  starting : String
  stopping : String
  deriving Repr, DecidableEq

/-- Joining by `hold`: how long a connection is kept open. -/
structure HoldConfig where
  timeout : Nat
  deriving Repr, DecidableEq

/-- Joining by `forward`: where the connection is passed on to. -/
structure ForwardConfig where
  address : SocketAddress
  sendProxyV2 : Bool
  deriving Repr, DecidableEq

/-- Joining by `lobby`: an empty world to wait in. -/
structure LobbyConfig where
  timeout : Nat
  message : String
  readySound : Option String
  deriving Repr, DecidableEq

/-- What to do with a player who joins: the methods in the order in which they are tried. -/
structure JoinConfig where
  methods : List JoinMethod
  kick : KickConfig
  hold : HoldConfig
  forward : ForwardConfig
  lobby : LobbyConfig
  deriving Repr, DecidableEq

/-- Keeping every player out. -/
structure LockoutConfig where
  enabled : Bool
  message : String
  deriving Repr, DecidableEq

/-- The remote console of the server. -/
structure RconConfig where
  enabled : Bool
  port : Nat
  password : String
  randomizePassword : Bool
  sendProxyV2 : Bool
  deriving Repr, DecidableEq

/-- Settings for special needs. -/
structure AdvancedConfig where
  rewriteServerProperties : Bool
  deriving Repr, DecidableEq

/-- The version of the program that a configuration was written for. -/
structure FormatConfig where
  version : Option String
  deriving Repr, DecidableEq

/-- A complete configuration. `path` is the file that it was read from, if it was. -/
structure Config where
  path : Option String
  front : FrontConfig
  server : ServerConfig
  time : TimeConfig
  motd : MotdConfig
  join : JoinConfig
  lockout : LockoutConfig
  rcon : RconConfig
  advanced : AdvancedConfig
  format : FormatConfig
  deriving Repr, DecidableEq

end WakeConfig
