import Mathlib.Data.List.Nodup
import Mathlib.Logic.Function.Basic
import WakeConfig.Environment.Documented
import WakeConfig.Environment.Reader
import WakeConfig.Proofs.Resolution
import WakeConfig.Proofs.Trees

/-!
# Settings

The leaves of a configuration, one by one: each has a type, a path of keys in the tree and in a
file, a variable that spells this path, and a default. A configuration without a path is the same
as a value for every setting (`Config.ofSettings`), so a statement about all settings is one about
the whole tree.
-/

namespace WakeConfig

/-- The type of a setting. -/
inductive SettingType where
  | text
  | optionalText
  | flag
  | number (max : Nat)
  | address
  | methods
  deriving Repr, DecidableEq

/-- The values of a type. -/
abbrev SettingType.Value : SettingType → Type
  | text => String
  | optionalText => Option String
  | flag => Bool
  | number _ => Nat
  | address => SocketAddress
  | methods => List JoinMethod

/-- A setting of the configuration. -/
inductive Setting where
  | frontAddress
  | frontVersion
  | frontProtocol
  | serverCommand
  | serverDirectory
  | serverAddress
  | freezeProcess
  | wakeOnStart
  | wakeOnCrash
  | probeOnStart
  | forge
  | startTimeout
  | stopTimeout
  | wakeWhitelist
  | blockBannedIps
  | dropBannedIps
  | serverProxyV2
  | sleepAfter
  | minOnlineTime
  | motdSleeping
  | motdStarting
  | motdStopping
  | motdFromServer
  | joinMethods
  | kickStarting
  | kickStopping
  | holdTimeout
  | forwardAddress
  | forwardProxyV2
  | lobbyTimeout
  | lobbyMessage
  | readySound
  | lockoutEnabled
  | lockoutMessage
  | rconEnabled
  | rconPort
  | rconPassword
  | randomizePassword
  | rconProxyV2
  | rewriteProperties
  | formatVersion
  deriving Repr, DecidableEq

/-- The type of a setting and its place: the sections that lead to it, and its key. -/
structure SettingPlace where
  type : SettingType
  sections : List String
  key : String
  deriving Repr, DecidableEq

namespace Setting

/-- The type and the place of every setting. -/
def place : Setting → SettingPlace
  | frontAddress => ⟨.address, ["public"], "address"⟩
  | frontVersion => ⟨.text, ["public"], "version"⟩
  | frontProtocol => ⟨.number Default.maxU32, ["public"], "protocol"⟩
  | serverCommand => ⟨.text, ["server"], "command"⟩
  | serverDirectory => ⟨.text, ["server"], "directory"⟩
  | serverAddress => ⟨.address, ["server"], "address"⟩
  | freezeProcess => ⟨.flag, ["server"], "freeze_process"⟩
  | wakeOnStart => ⟨.flag, ["server"], "wake_on_start"⟩
  | wakeOnCrash => ⟨.flag, ["server"], "wake_on_crash"⟩
  | probeOnStart => ⟨.flag, ["server"], "probe_on_start"⟩
  | forge => ⟨.flag, ["server"], "forge"⟩
  | startTimeout => ⟨.number Default.maxU32, ["server"], "start_timeout"⟩
  | stopTimeout => ⟨.number Default.maxU32, ["server"], "stop_timeout"⟩
  | wakeWhitelist => ⟨.flag, ["server"], "wake_whitelist"⟩
  | blockBannedIps => ⟨.flag, ["server"], "block_banned_ips"⟩
  | dropBannedIps => ⟨.flag, ["server"], "drop_banned_ips"⟩
  | serverProxyV2 => ⟨.flag, ["server"], "send_proxy_v2"⟩
  | sleepAfter => ⟨.number Default.maxU32, ["time"], "sleep_after"⟩
  | minOnlineTime => ⟨.number Default.maxU32, ["time"], "min_online_time"⟩
  | motdSleeping => ⟨.text, ["motd"], "sleeping"⟩
  | motdStarting => ⟨.text, ["motd"], "starting"⟩
  | motdStopping => ⟨.text, ["motd"], "stopping"⟩
  | motdFromServer => ⟨.flag, ["motd"], "from_server"⟩
  | joinMethods => ⟨.methods, ["join"], "methods"⟩
  | kickStarting => ⟨.text, ["join", "kick"], "starting"⟩
  | kickStopping => ⟨.text, ["join", "kick"], "stopping"⟩
  | holdTimeout => ⟨.number Default.maxU32, ["join", "hold"], "timeout"⟩
  | forwardAddress => ⟨.address, ["join", "forward"], "address"⟩
  | forwardProxyV2 => ⟨.flag, ["join", "forward"], "send_proxy_v2"⟩
  | lobbyTimeout => ⟨.number Default.maxU32, ["join", "lobby"], "timeout"⟩
  | lobbyMessage => ⟨.text, ["join", "lobby"], "message"⟩
  | readySound => ⟨.optionalText, ["join", "lobby"], "ready_sound"⟩
  | lockoutEnabled => ⟨.flag, ["lockout"], "enabled"⟩
  | lockoutMessage => ⟨.text, ["lockout"], "message"⟩
  | rconEnabled => ⟨.flag, ["rcon"], "enabled"⟩
  | rconPort => ⟨.number Default.maxU16, ["rcon"], "port"⟩
  | rconPassword => ⟨.text, ["rcon"], "password"⟩
  | randomizePassword => ⟨.flag, ["rcon"], "randomize_password"⟩
  | rconProxyV2 => ⟨.flag, ["rcon"], "send_proxy_v2"⟩
  | rewriteProperties => ⟨.flag, ["advanced"], "rewrite_server_properties"⟩
  | formatVersion => ⟨.optionalText, ["config"], "version"⟩

/-- The type of a setting. -/
def type (s : Setting) : SettingType := s.place.type

/-- The path of keys that leads to a setting. -/
def keys (s : Setting) : List String := s.place.sections ++ [s.place.key]

/-- The value of a setting in a configuration. -/
def get : (s : Setting) → Config → s.type.Value
  | frontAddress, c => c.front.address
  | frontVersion, c => c.front.version
  | frontProtocol, c => c.front.protocol
  | serverCommand, c => c.server.command
  | serverDirectory, c => c.server.directory
  | serverAddress, c => c.server.address
  | freezeProcess, c => c.server.freezeProcess
  | wakeOnStart, c => c.server.wakeOnStart
  | wakeOnCrash, c => c.server.wakeOnCrash
  | probeOnStart, c => c.server.probeOnStart
  | forge, c => c.server.forge
  | startTimeout, c => c.server.startTimeout
  | stopTimeout, c => c.server.stopTimeout
  | wakeWhitelist, c => c.server.wakeWhitelist
  | blockBannedIps, c => c.server.blockBannedIps
  | dropBannedIps, c => c.server.dropBannedIps
  | serverProxyV2, c => c.server.sendProxyV2
  | sleepAfter, c => c.time.sleepAfter
  | minOnlineTime, c => c.time.minOnlineTime
  | motdSleeping, c => c.motd.sleeping
  | motdStarting, c => c.motd.starting
  | motdStopping, c => c.motd.stopping
  | motdFromServer, c => c.motd.fromServer
  | joinMethods, c => c.join.methods
  | kickStarting, c => c.join.kick.starting
  | kickStopping, c => c.join.kick.stopping
  | holdTimeout, c => c.join.hold.timeout
  | forwardAddress, c => c.join.forward.address
  | forwardProxyV2, c => c.join.forward.sendProxyV2
  | lobbyTimeout, c => c.join.lobby.timeout
  | lobbyMessage, c => c.join.lobby.message
  | readySound, c => c.join.lobby.readySound
  | lockoutEnabled, c => c.lockout.enabled
  | lockoutMessage, c => c.lockout.message
  | rconEnabled, c => c.rcon.enabled
  | rconPort, c => c.rcon.port
  | rconPassword, c => c.rcon.password
  | randomizePassword, c => c.rcon.randomizePassword
  | rconProxyV2, c => c.rcon.sendProxyV2
  | rewriteProperties, c => c.advanced.rewriteServerProperties
  | formatVersion, c => c.format.version

end Setting

/-! ## Configurations by their settings -/

/-- Values for all settings. -/
abbrev Settings := (s : Setting) → s.type.Value

namespace Config

/-- The configuration of some settings. It names no file. -/
def ofSettings (g : Settings) : Config where
  path := none
  front :=
    { address := g .frontAddress, version := g .frontVersion, protocol := g .frontProtocol }
  server :=
    { directory := g .serverDirectory, command := g .serverCommand, address := g .serverAddress
      freezeProcess := g .freezeProcess, wakeOnStart := g .wakeOnStart
      wakeOnCrash := g .wakeOnCrash, probeOnStart := g .probeOnStart, forge := g .forge
      startTimeout := g .startTimeout, stopTimeout := g .stopTimeout
      wakeWhitelist := g .wakeWhitelist, blockBannedIps := g .blockBannedIps
      dropBannedIps := g .dropBannedIps, sendProxyV2 := g .serverProxyV2 }
  time := { sleepAfter := g .sleepAfter, minOnlineTime := g .minOnlineTime }
  motd :=
    { sleeping := g .motdSleeping, starting := g .motdStarting, stopping := g .motdStopping
      fromServer := g .motdFromServer }
  join :=
    { methods := g .joinMethods
      kick := { starting := g .kickStarting, stopping := g .kickStopping }
      hold := { timeout := g .holdTimeout }
      forward := { address := g .forwardAddress, sendProxyV2 := g .forwardProxyV2 }
      lobby :=
        { timeout := g .lobbyTimeout, message := g .lobbyMessage, readySound := g .readySound } }
  lockout := { enabled := g .lockoutEnabled, message := g .lockoutMessage }
  rcon :=
    { enabled := g .rconEnabled, port := g .rconPort, password := g .rconPassword
      randomizePassword := g .randomizePassword, sendProxyV2 := g .rconProxyV2 }
  advanced := { rewriteServerProperties := g .rewriteProperties }
  format := { version := g .formatVersion }

/-- The settings of a configuration. -/
def settings (c : Config) : Settings := fun s => s.get c

@[simp] theorem get_ofSettings (g : Settings) (s : Setting) : s.get (ofSettings g) = g s := by
  cases s <;> rfl

/-- A configuration that names no file is that of its settings. -/
theorem ofSettings_settings {c : Config} (h : c.path = none) : ofSettings c.settings = c := by
  obtain ⟨path, front, server, time, motd, join, lockout, rcon, advanced, format⟩ := c
  obtain rfl : path = none := h
  rfl

/-- Configurations that name no file are the same if all their settings are. -/
theorem eq_of_get {c c' : Config} (h : c.path = none) (h' : c'.path = none)
    (hget : ∀ s : Setting, s.get c = s.get c') : c = c' := by
  have hsettings : c.settings = c'.settings := funext hget
  rw [← ofSettings_settings h, ← ofSettings_settings h', hsettings]

/-- A configuration with another value for one setting. -/
def put (s : Setting) (x : s.type.Value) (c : Config) : Config :=
  { ofSettings (Function.update c.settings s x) with path := c.path }

@[simp] theorem settings_ofSettings (g : Settings) : (ofSettings g).settings = g :=
  funext fun s => get_ofSettings g s

theorem put_ofSettings (g : Settings) (s : Setting) (x : s.type.Value) :
    (ofSettings g).put s x = ofSettings (Function.update g s x) := by
  rw [put, settings_ofSettings]
  rfl

theorem get_put_self (s : Setting) (x : s.type.Value) (c : Config) : s.get (c.put s x) = x := by
  have hput : s.get (c.put s x) = s.get (ofSettings (Function.update c.settings s x)) := by
    cases s <;> rfl
  rw [hput, get_ofSettings, Function.update_self]

theorem get_put_of_ne {s s' : Setting} (h : s' ≠ s) (x : s.type.Value) (c : Config) :
    s'.get (c.put s x) = s'.get c := by
  have hput : s'.get (c.put s x) = s'.get (ofSettings (Function.update c.settings s x)) := by
    cases s' <;> rfl
  rw [hput, get_ofSettings, Function.update_of_ne h]
  rfl

end Config

/-! ## The tree as a value -/

/-- The value of a setting in the tree; a text that is missing has none. -/
def SettingType.json? : (type : SettingType) → type.Value → Option Json
  | text, x => some (.string x)
  | optionalText, x => x.map .string
  | flag, b => some (.bool b)
  | number _, n => some (.ofNat n)
  | address, a => some a.toJson
  | methods, ms => some (.array (ms.map fun m => .string m.name))

/-- The tree has the value of a setting under its keys. -/
theorem Config.at?_keys (c : Config) (s : Setting) :
    c.toJson.at? s.keys = s.type.json? (s.get c) := by
  cases s with
  | joinMethods =>
    have hnames : Part.itemsToJson (c.join.methods.map fun m => Part.text m.name)
        = c.join.methods.map fun m => Json.string m.name := by
      have h := Part.itemsToJson_texts (c.join.methods.map JoinMethod.name)
      rw [List.map_map, List.map_map] at h
      exact h
    show some (Json.array (Part.itemsToJson (c.join.methods.map fun m => Part.text m.name))) = _
    rw [hnames]
    rfl
  | readySound =>
    obtain ⟨-, -, -, -, -, ⟨-, -, -, -, ⟨timeout, message, sound⟩⟩, -, -, -, -⟩ := c
    cases sound <;> rfl
  | formatVersion =>
    obtain ⟨-, -, -, -, -, -, -, -, -, ⟨version⟩⟩ := c
    cases version <;> rfl
  | _ => rfl

/-! ## Defaults -/

/-- The configuration of the defaults, with an empty start command. -/
def Default.config (platform : Platform) : Config where
  path := none
  front := Default.front
  server := Default.server ""
  time := Default.time
  motd := Default.motd
  join := Default.join
  lockout := Default.lockout
  rcon := Default.rcon platform
  advanced := Default.advanced
  format := Default.format

namespace Setting

/-- The default of a setting. The start command has none that is ever used. -/
def default (s : Setting) (platform : Platform) : s.type.Value := s.get (Default.config platform)

/-! ## Variables -/

/-- A text in capitals. -/
def capitals (s : String) : String := String.ofList (s.toList.map Char.toUpper)

/-- The variable of a setting, which spells its keys. -/
def variableName (s : Setting) : String :=
  Default.variableStart ++ "_".intercalate (s.keys.map capitals)

/-- The name by which a reader asks for the variable of a setting. -/
def readerKey : Setting → String
  | frontAddress => "PUBLIC_ADDRESS"
  | frontVersion => "PUBLIC_VERSION"
  | frontProtocol => "PUBLIC_PROTOCOL"
  | serverCommand => "SERVER_COMMAND"
  | serverDirectory => "SERVER_DIRECTORY"
  | serverAddress => "SERVER_ADDRESS"
  | freezeProcess => "SERVER_FREEZE_PROCESS"
  | wakeOnStart => "SERVER_WAKE_ON_START"
  | wakeOnCrash => "SERVER_WAKE_ON_CRASH"
  | probeOnStart => "SERVER_PROBE_ON_START"
  | forge => "SERVER_FORGE"
  | startTimeout => "SERVER_START_TIMEOUT"
  | stopTimeout => "SERVER_STOP_TIMEOUT"
  | wakeWhitelist => "SERVER_WAKE_WHITELIST"
  | blockBannedIps => "SERVER_BLOCK_BANNED_IPS"
  | dropBannedIps => "SERVER_DROP_BANNED_IPS"
  | serverProxyV2 => "SERVER_SEND_PROXY_V2"
  | sleepAfter => "TIME_SLEEP_AFTER"
  | minOnlineTime => "TIME_MIN_ONLINE_TIME"
  | motdSleeping => "MOTD_SLEEPING"
  | motdStarting => "MOTD_STARTING"
  | motdStopping => "MOTD_STOPPING"
  | motdFromServer => "MOTD_FROM_SERVER"
  | joinMethods => "JOIN_METHODS"
  | kickStarting => "JOIN_KICK_STARTING"
  | kickStopping => "JOIN_KICK_STOPPING"
  | holdTimeout => "JOIN_HOLD_TIMEOUT"
  | forwardAddress => "JOIN_FORWARD_ADDRESS"
  | forwardProxyV2 => "JOIN_FORWARD_SEND_PROXY_V2"
  | lobbyTimeout => "JOIN_LOBBY_TIMEOUT"
  | lobbyMessage => "JOIN_LOBBY_MESSAGE"
  | readySound => "JOIN_LOBBY_READY_SOUND"
  | lockoutEnabled => "LOCKOUT_ENABLED"
  | lockoutMessage => "LOCKOUT_MESSAGE"
  | rconEnabled => "RCON_ENABLED"
  | rconPort => "RCON_PORT"
  | rconPassword => "RCON_PASSWORD"
  | randomizePassword => "RCON_RANDOMIZE_PASSWORD"
  | rconProxyV2 => "RCON_SEND_PROXY_V2"
  | rewriteProperties => "ADVANCED_REWRITE_SERVER_PROPERTIES"
  | formatVersion => "CONFIG_VERSION"

theorem variableName_eq (s : Setting) : s.variableName = Reader.fullName s.readerKey := by
  cases s <;> decide +kernel

/-- All settings. -/
def all : List Setting :=
  [frontAddress, frontVersion, frontProtocol, serverCommand, serverDirectory, serverAddress,
   freezeProcess, wakeOnStart, wakeOnCrash, probeOnStart, forge, startTimeout, stopTimeout,
   wakeWhitelist, blockBannedIps, dropBannedIps, serverProxyV2, sleepAfter, minOnlineTime,
   motdSleeping, motdStarting, motdStopping, motdFromServer, joinMethods, kickStarting,
   kickStopping, holdTimeout, forwardAddress, forwardProxyV2, lobbyTimeout, lobbyMessage,
   readySound, lockoutEnabled, lockoutMessage, rconEnabled, rconPort, rconPassword,
   randomizePassword, rconProxyV2, rewriteProperties, formatVersion]

theorem mem_all (s : Setting) : s ∈ all := by
  cases s <;> decide

/-- The documented variables are those of the settings. -/
theorem names_documented (platform : Platform) :
    (VariableDoc.all platform).map VariableDoc.name = all.map variableName := by
  have hnames : all.map variableName = all.map fun s => Reader.fullName s.readerKey :=
    List.map_congr_left fun s _ => variableName_eq s
  rw [hnames]
  rfl

/-- No two settings have one variable. -/
theorem eq_of_variableName {s s' : Setting} (h : s.variableName = s'.variableName) : s = s' := by
  have hnodup : (all.map readerKey).Nodup := by decide +kernel
  refine List.inj_on_of_nodup_map hnodup (mem_all s) (mem_all s') ?_
  rw [variableName_eq, variableName_eq, Reader.fullName, Reader.fullName] at h
  exact (String.append_right_inj _).1 h

end Setting

/-! ## Looking up names -/

namespace Setting

/-- The settings whose addresses are resolved before that of a setting. -/
def earlier : Setting → List Setting
  | serverAddress => [frontAddress]
  | forwardAddress => [frontAddress, serverAddress]
  | _ => []

/-- The names that were looked up before a setting is read, where each address has a text or
none. -/
def heard (text? : Setting → Option String) (s : Setting) : List String :=
  s.earlier.flatMap fun a => (text? a).elim [] SocketAddress.asked

theorem type_of_mem_earlier {s s' : Setting} (h : s' ∈ s.earlier) : s'.type = .address := by
  cases s <;> simp [earlier] at h
  · rw [h]
    rfl
  · rcases h with rfl | rfl <;> rfl

theorem not_mem_earlier (s : Setting) : s ∉ s.earlier := by
  cases s <;> decide

/-- Which names are looked up before a setting is read follows from those that are looked up for
each address. -/
theorem heard_congr_asked {text? text?' : Setting → Option String}
    (h : ∀ s : Setting, s.type = .address →
      (text? s).elim [] SocketAddress.asked = (text?' s).elim [] SocketAddress.asked)
    (s : Setting) : s.heard text? = s.heard text?' :=
  List.flatMap_congr fun s' hs' => h s' (type_of_mem_earlier hs')

/-- Which names are looked up before a setting is read follows from the texts of addresses. -/
theorem heard_congr {text? text?' : Setting → Option String}
    (h : ∀ s : Setting, s.type = .address → text? s = text?' s) (s : Setting) :
    s.heard text? = s.heard text?' :=
  heard_congr_asked (fun s' hs' => by rw [h s' hs']) s

end Setting

end WakeConfig
