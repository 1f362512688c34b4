import WakeConfig.Proofs.Outcomes
import WakeConfig.Proofs.Spellings

/-!
# Variables

What an environment describes. Each reader is one equation: the value that it gives, which is that
of the variable's text if this spells one and the default otherwise, and what is added to the
trace. Put together, an environment with a start command describes a configuration, in which every
setting has the value of its own variable. There is one way out: the name of an address may be
refused with something that has no text, and the error that comes of it ends the reading there.
-/

namespace WakeConfig

/-! ## Errors that are raised -/

/-- The text of a setting raises an error. Only an address does. -/
def Setting.Raises (s : Setting) (answer : String → HostAnswer) (x? : Option String)
    (raised : LookupError) : Prop :=
  s.type = .address ∧ ∃ x ∈ x?, SocketAddress.Raises answer x raised

theorem Setting.Raises.unique {s : Setting} {answer : String → HostAnswer} {x? : Option String}
    {raised raised' : LookupError} (h : s.Raises answer x? raised)
    (h' : s.Raises answer x? raised') : raised = raised' := by
  obtain ⟨-, x, hx, hraises⟩ := h
  obtain ⟨-, x', hx', hraises'⟩ := h'
  obtain rfl : x = x' := Option.some.inj (hx.symm.trans hx')
  exact hraises.unique hraises'

/-! ## Values of variables -/

/-- The value of a variable of a type: what its text spells, and the default without such a text. -/
def SettingType.ofVariable (type : SettingType) (answer : String → HostAnswer)
    (fallback : type.Value) (x? : Option String) : type.Value :=
  (x?.bind (type.ofText? answer)).getD fallback

/-- A text is a start command: not all of it is blank. -/
def IsCommand (text? : Option String) : Prop :=
  ∃ text ∈ text?, ∃ c ∈ text.toList, Text.isBlank c = false

theorem isCommand_some {text : String} : IsCommand (some text) ↔ Text.trim text.toList ≠ [] := by
  rw [Ne, Text.trim_eq_nil_iff]
  constructor
  · rintro ⟨text', htext, c, hc, hblank⟩ hall
    obtain rfl := Option.some.inj htext
    rw [hall c hc] at hblank
    cases hblank
  · intro h
    obtain ⟨c, hc⟩ := not_forall.1 h
    obtain ⟨hmem, hblank⟩ := Classical.not_imp.1 hc
    exact ⟨text, rfl, c, hmem, Bool.eq_false_iff.2 hblank⟩

/-- A text that is blank decodes to itself, so one that decodes to a start command is one. -/
theorem isCommand_of_unescape {text : String} (h : IsCommand (some (Text.unescape text))) :
    IsCommand (some text) := by
  rw [isCommand_some] at h ⊢
  intro htrim
  have hblank := Text.trim_eq_nil_iff.1 htrim
  have hescape : '\\' ∉ text.toList := by
    intro hmem
    exact absurd (hblank _ hmem) (by decide)
  refine h ?_
  rw [Text.unescape, String.toList_ofList, Text.decodeEscapes_of_not_mem hescape, htrim]

/-- An environment gives a start command. -/
def Environment.HasCommand (e : Environment) : Prop := IsCommand (e.get? Default.commandVariable)

theorem Setting.variableName_serverCommand :
    variableName .serverCommand = Default.commandVariable := by
  decide +kernel

/-- The settings in the order in which their variables are read: the start command is the first. -/
def Setting.readOrder : List Setting := .serverCommand :: all.filter (· ≠ .serverCommand)

/-- The settings whose variables are read until that of a setting is, this one included. -/
def Setting.readUntil (s : Setting) : List Setting := readOrder.takeWhile (· ≠ s) ++ [s]

namespace Reader

variable (src : Source) (t : Trace) (key : String)

/-- The text of the variable of a setting. -/
def Source.text? (s : Setting) : Option String := src.environment.get? s.variableName

/-- The value of a setting, by what the resolver answers behind some names. -/
def Source.value (heard : List String) (s : Setting) : s.type.Value :=
  s.type.ofVariable (src.resolver heard) (s.default src.platform) (src.text? s)

/-- The names that are looked up for a setting that is an address. -/
def Source.asked (s : Setting) : List String := (src.text? s).elim [] SocketAddress.asked

/-- The text of a setting raises an error where it is read. -/
def Source.Raises (s : Setting) (raised : LookupError) : Prop :=
  s.Raises (src.resolver (s.heard src.text?)) (src.text? s) raised

/-- A setting is the first whose text raises an error. -/
structure Source.RaisesFirst (s : Setting) (raised : LookupError) : Prop where
  raises : src.Raises s raised
  first : ∀ s' ∈ s.earlier, ∀ raised', ¬ src.Raises s' raised'

/-- The trace behind the variables of some keys, for which some names were looked up. -/
def Trace.seen (keys asked : List String) : Trace :=
  ⟨t.names ++ keys.map fullName, t.lookups ++ asked⟩

@[simp] theorem Trace.lookups_seen (keys asked : List String) :
    (t.seen keys asked).lookups = t.lookups ++ asked := by
  rw [seen]

theorem Trace.seen_seen (keys keys' asked asked' : List String) :
    (t.seen keys asked).seen keys' asked' = t.seen (keys ++ keys') (asked ++ asked') := by
  simp [seen]

/-! ## Readers -/

theorem run_raw :
    (raw src key).run t = (src.environment.get? (fullName key), t.seen [key] []) := by
  show (_, Trace.mk _ _) = (_, Trace.mk _ _)
  rw [List.append_nil]
  rfl

theorem run_string (fallback : String) :
    (string src key fallback).run t =
      (SettingType.text.ofVariable (src.resolver []) fallback
        (src.environment.get? (fullName key)), t.seen [key] []) := by
  simp only [string, StateT.run_bind, run_raw]
  cases src.environment.get? (fullName key) <;> rfl

theorem run_optionalString (fallback : Option String) :
    (optionalString src key fallback).run t =
      (SettingType.optionalText.ofVariable (src.resolver []) fallback
        (src.environment.get? (fullName key)), t.seen [key] []) := by
  simp only [optionalString, StateT.run_bind, run_raw]
  cases src.environment.get? (fullName key) <;> rfl

theorem run_boolean (fallback : Bool) :
    (boolean src key fallback).run t =
      (SettingType.flag.ofVariable (src.resolver []) fallback
        (src.environment.get? (fullName key)), t.seen [key] []) := by
  simp only [boolean, boolean?, StateT.run_bind, run_raw]
  cases src.environment.get? (fullName key) <;> rfl

theorem run_unsigned (max fallback : Nat) :
    (unsigned src max key fallback).run t =
      ((SettingType.number max).ofVariable (src.resolver []) fallback
        (src.environment.get? (fullName key)), t.seen [key] []) := by
  simp only [unsigned, unsigned?, StateT.run_bind, run_raw]
  cases src.environment.get? (fullName key) <;> rfl

theorem run_methods (fallback : List String) :
    (methods src key fallback).run t =
      (SettingType.methods.ofVariable (src.resolver []) (fallback.filterMap Coerce.joinMethod?)
        (src.environment.get? (fullName key)), t.seen [key] []) := by
  simp only [methods, list, StateT.run_bind, run_raw]
  cases src.environment.get? (fullName key) with
  | none => rfl
  | some x =>
    dsimp only [bind, pure, StateT.run, StateT.pure]
    rw [SettingType.ofVariable, Option.bind_some, SettingType.ofText?, Option.getD_some]

/-- An address that a variable does not give falls back to its default, which is an address. -/
theorem run_socketAddress {fallback : String} {a : SocketAddress}
    (h : SocketAddress.parse fallback = .ok a)
    (hquiet : ∀ text ∈ src.environment.get? (fullName key), ∀ raised,
      ¬ SocketAddress.Raises (src.resolver t.lookups) text raised) :
    (socketAddress src key fallback).run t =
      (.ok (SettingType.address.ofVariable (src.resolver t.lookups) a
        (src.environment.get? (fullName key))),
        t.seen [key] ((src.environment.get? (fullName key)).elim [] SocketAddress.asked)) := by
  have hfallback : literal fallback = .ok a := by
    rw [literal, h]
    rfl
  simp only [socketAddress, StateT.run_bind, run_raw]
  cases htext : src.environment.get? (fullName key) with
  | none =>
    rw [hfallback]
    rfl
  | some text =>
    have hlookups := SocketAddress.lookups_resolve (src.resolver t.lookups) text
    dsimp only [bind, StateT.bind, StateT.run, modify, modifyGet, MonadStateOf.modifyGet,
      StateT.modifyGet, pure, StateT.pure, get, getThe, MonadStateOf.get, StateT.get, Trace.seen,
      SettingType.ofVariable]
    simp only [List.append_nil, Option.elim_some, Option.bind_some, SettingType.ofText?, hlookups]
    cases houtcome : (SocketAddress.resolve (src.resolver t.lookups) text).outcome with
    | ok b => rfl
    | error e =>
      cases e with
      | own cause =>
        rw [hfallback]
        rfl
      | foreign raised =>
        exact absurd (SocketAddress.resolve_eq_foreign_iff.1 houtcome) (hquiet text htext raised)

/-- An error that an address raises is passed on. -/
theorem run_socketAddress_of_raises (fallback : String) {text : String} {raised : LookupError}
    (htext : src.environment.get? (fullName key) = some text)
    (hraises : SocketAddress.Raises (src.resolver t.lookups) text raised) :
    (socketAddress src key fallback).run t =
      (.error (.foreign raised), t.seen [key] (SocketAddress.asked text)) := by
  have hlookups := SocketAddress.lookups_resolve (src.resolver t.lookups) text
  simp only [socketAddress, StateT.run_bind, run_raw, htext]
  dsimp only [bind, StateT.bind, StateT.run, modify, modifyGet, MonadStateOf.modifyGet,
    StateT.modifyGet, pure, StateT.pure, get, getThe, MonadStateOf.get, StateT.get, Trace.seen]
  simp only [List.append_nil, hlookups, SocketAddress.resolve_eq_foreign_iff.2 hraises]
  rfl

end Reader

/-! ## Sections -/

namespace FromEnvironment

open Reader (Source Trace)

variable (src : Source) (t : Trace) (key : String)

theorem run_lift {α : Type} (m : Reader.Reading α) :
    (liftM m : Building α).run.run t = (.ok (m.run t).1, (m.run t).2) := rfl

theorem run_pure {α : Type} (a : α) : (pure a : Building α).run.run t = (.ok a, t) := rfl

theorem text?_eq (s : Setting) :
    src.text? s = src.environment.get? (Reader.fullName s.readerKey) := by
  rw [Source.text?, Setting.variableName_eq]

theorem heard_serverAddress :
    Setting.heard src.text? .serverAddress = src.asked .frontAddress := by
  simp [Setting.heard, Setting.earlier, Source.asked]

theorem heard_forwardAddress : Setting.heard src.text? .forwardAddress
    = src.asked .frontAddress ++ src.asked .serverAddress := by
  simp [Setting.heard, Setting.earlier, Source.asked]

/-- An address of a setting that raises no error. -/
theorem run_address (s : Setting) (hs : s.type = .address) {fallback : String}
    {a : SocketAddress} (h : SocketAddress.parse fallback = .ok a)
    (ht : t.lookups = s.heard src.text?) (hquiet : ∀ raised, ¬ src.Raises s raised) :
    (address src s.readerKey fallback).run.run t =
      (.ok (SettingType.address.ofVariable (src.resolver (s.heard src.text?)) a (src.text? s)),
        t.seen [s.readerKey] (src.asked s)) := by
  have hread := Reader.run_socketAddress src t s.readerKey h fun text htext raised hraises =>
    hquiet raised ⟨hs, text, (text?_eq src s).trans htext, ht ▸ hraises⟩
  rw [address, run_bind, run_lift, hread, Source.asked, text?_eq, ht]
  rfl

/-- An address of a setting that raises an error. -/
theorem run_address_of_raises (s : Setting) (fallback : String) {raised : LookupError}
    (ht : t.lookups = s.heard src.text?) (hraises : src.Raises s raised) :
    (address src s.readerKey fallback).run.run t =
      (.error (.foreign raised), t.seen [s.readerKey] (src.asked s)) := by
  obtain ⟨-, text, htext, hraises⟩ := hraises
  have hasked : src.asked s = SocketAddress.asked text := by
    rw [Source.asked, htext]
    rfl
  rw [← ht] at hraises
  rw [text?_eq] at htext
  rw [address, run_bind, run_lift,
    Reader.run_socketAddress_of_raises src t s.readerKey fallback htext hraises, hasked]
  rfl

theorem run_seconds (fallback : Nat) :
    ((seconds src key fallback).run.run t) =
      (.ok ((SettingType.number Default.maxU32).ofVariable (src.resolver []) fallback
        (src.environment.get? (Reader.fullName key))), t.seen [key] []) := by
  rw [seconds, run_lift, Reader.run_unsigned]

theorem run_front (ht : t.lookups = [])
    (hquiet : ∀ raised, ¬ src.Raises .frontAddress raised) :
    (front src).run.run t =
      (.ok
        { address := src.value [] .frontAddress
          version := src.value [] .frontVersion
          protocol := src.value [] .frontProtocol },
        t.seen ["PUBLIC_ADDRESS", "PUBLIC_VERSION", "PUBLIC_PROTOCOL"]
          (src.asked .frontAddress)) := by
  have haddress := run_address src t .frontAddress rfl Default.parse_frontAddress ht hquiet
  simp only [Setting.readerKey] at haddress
  simp only [front, run_bind, haddress, run_lift, Reader.run_string, run_seconds, run_pure,
    Trace.seen_seen]
  simp only [Source.value, text?_eq, List.append_nil]
  rfl

theorem run_front_of_raises (ht : t.lookups = []) {raised : LookupError}
    (hraises : src.Raises .frontAddress raised) :
    (front src).run.run t =
      (.error (.foreign raised), t.seen ["PUBLIC_ADDRESS"] (src.asked .frontAddress)) := by
  have haddress := run_address_of_raises src t .frontAddress Default.frontAddress ht hraises
  simp only [Setting.readerKey] at haddress
  simp only [front, run_bind, haddress]

theorem run_server (command : String) (ht : t.lookups = src.asked .frontAddress)
    (hquiet : ∀ raised, ¬ src.Raises .serverAddress raised) :
    (server src command).run.run t =
      (.ok
        { directory := src.value [] .serverDirectory
          command := command
          address := src.value (src.asked .frontAddress) .serverAddress
          freezeProcess := src.value [] .freezeProcess
          wakeOnStart := src.value [] .wakeOnStart
          wakeOnCrash := src.value [] .wakeOnCrash
          probeOnStart := src.value [] .probeOnStart
          forge := src.value [] .forge
          startTimeout := src.value [] .startTimeout
          stopTimeout := src.value [] .stopTimeout
          wakeWhitelist := src.value [] .wakeWhitelist
          blockBannedIps := src.value [] .blockBannedIps
          dropBannedIps := src.value [] .dropBannedIps
          sendProxyV2 := src.value [] .serverProxyV2 },
        t.seen
          ["SERVER_DIRECTORY", "SERVER_ADDRESS", "SERVER_FREEZE_PROCESS", "SERVER_WAKE_ON_START",
           "SERVER_WAKE_ON_CRASH", "SERVER_PROBE_ON_START", "SERVER_FORGE", "SERVER_START_TIMEOUT",
           "SERVER_STOP_TIMEOUT", "SERVER_WAKE_WHITELIST", "SERVER_BLOCK_BANNED_IPS",
           "SERVER_DROP_BANNED_IPS", "SERVER_SEND_PROXY_V2"] (src.asked .serverAddress)) := by
  have haddress := run_address src (t.seen ["SERVER_DIRECTORY"] []) .serverAddress rfl
    (Default.parse_serverAddress command) (by simp [ht, heard_serverAddress]) hquiet
  simp only [Setting.readerKey, heard_serverAddress] at haddress
  simp only [server, run_bind, haddress, run_lift, Reader.run_string, Reader.run_boolean,
    run_seconds, run_pure, Trace.seen_seen]
  simp only [Source.value, text?_eq, List.nil_append,
    List.append_nil]
  rfl

theorem run_server_of_raises (command : String) (ht : t.lookups = src.asked .frontAddress)
    {raised : LookupError} (hraises : src.Raises .serverAddress raised) :
    (server src command).run.run t =
      (.error (.foreign raised),
        t.seen ["SERVER_DIRECTORY", "SERVER_ADDRESS"] (src.asked .serverAddress)) := by
  have haddress := run_address_of_raises src (t.seen ["SERVER_DIRECTORY"] []) .serverAddress
    Default.serverAddress (by simp [ht, heard_serverAddress]) hraises
  simp only [Setting.readerKey] at haddress
  simp only [server, run_bind, run_lift, Reader.run_string, haddress, Trace.seen_seen,
    List.nil_append, List.cons_append]

theorem run_time : (time src).run.run t =
    (.ok
      { sleepAfter := src.value [] .sleepAfter
        minOnlineTime := src.value [] .minOnlineTime },
      t.seen ["TIME_SLEEP_AFTER", "TIME_MIN_ONLINE_TIME"] []) := by
  simp only [time, run_bind, run_seconds, run_pure, Trace.seen_seen]
  simp only [Source.value, text?_eq, List.append_nil]
  rfl

theorem run_motd : (motd src).run.run t =
    (.ok
      { sleeping := src.value [] .motdSleeping
        starting := src.value [] .motdStarting
        stopping := src.value [] .motdStopping
        fromServer := src.value [] .motdFromServer },
      t.seen ["MOTD_SLEEPING", "MOTD_STARTING", "MOTD_STOPPING", "MOTD_FROM_SERVER"] []) := by
  simp only [motd, run_bind, run_lift, Reader.run_string, Reader.run_boolean, run_pure,
    Trace.seen_seen]
  simp only [Source.value, text?_eq, List.append_nil]
  rfl

theorem run_kick : (kick src).run.run t =
    (.ok { starting := src.value [] .kickStarting, stopping := src.value [] .kickStopping },
      t.seen ["JOIN_KICK_STARTING", "JOIN_KICK_STOPPING"] []) := by
  simp only [kick, run_bind, run_lift, Reader.run_string, run_pure, Trace.seen_seen]
  simp only [Source.value, text?_eq, List.append_nil]
  rfl

theorem run_forward (ht : t.lookups = src.asked .frontAddress ++ src.asked .serverAddress)
    (hquiet : ∀ raised, ¬ src.Raises .forwardAddress raised) :
    (forward src).run.run t =
      (.ok
        { address :=
            src.value (src.asked .frontAddress ++ src.asked .serverAddress) .forwardAddress
          sendProxyV2 := src.value [] .forwardProxyV2 },
        t.seen ["JOIN_FORWARD_ADDRESS", "JOIN_FORWARD_SEND_PROXY_V2"]
          (src.asked .forwardAddress)) := by
  have haddress := run_address src t .forwardAddress rfl Default.parse_forwardAddress
    (ht.trans (heard_forwardAddress src).symm) hquiet
  simp only [Setting.readerKey, heard_forwardAddress] at haddress
  simp only [forward, run_bind, haddress, run_lift, Reader.run_boolean, run_pure,
    Trace.seen_seen]
  simp only [Source.value, text?_eq, List.append_nil]
  rfl

theorem run_forward_of_raises
    (ht : t.lookups = src.asked .frontAddress ++ src.asked .serverAddress) {raised : LookupError}
    (hraises : src.Raises .forwardAddress raised) :
    (forward src).run.run t =
      (.error (.foreign raised),
        t.seen ["JOIN_FORWARD_ADDRESS"] (src.asked .forwardAddress)) := by
  have haddress := run_address_of_raises src t .forwardAddress Default.forwardAddress
    (ht.trans (heard_forwardAddress src).symm) hraises
  simp only [Setting.readerKey] at haddress
  simp only [forward, run_bind, haddress]

theorem run_lobby : (lobby src).run.run t =
    (.ok
      { timeout := src.value [] .lobbyTimeout
        message := src.value [] .lobbyMessage
        readySound := src.value [] .readySound },
      t.seen ["JOIN_LOBBY_TIMEOUT", "JOIN_LOBBY_MESSAGE", "JOIN_LOBBY_READY_SOUND"] []) := by
  simp only [lobby, run_bind, run_lift, Reader.run_string, Reader.run_optionalString, run_seconds,
    run_pure, Trace.seen_seen]
  simp only [Source.value, text?_eq, List.append_nil]
  rfl

theorem run_join (ht : t.lookups = src.asked .frontAddress ++ src.asked .serverAddress)
    (hquiet : ∀ raised, ¬ src.Raises .forwardAddress raised) :
    (join src).run.run t =
      (.ok
        { methods := src.value [] .joinMethods
          kick :=
            { starting := src.value [] .kickStarting, stopping := src.value [] .kickStopping }
          hold := { timeout := src.value [] .holdTimeout }
          forward :=
            { address :=
                src.value (src.asked .frontAddress ++ src.asked .serverAddress) .forwardAddress
              sendProxyV2 := src.value [] .forwardProxyV2 }
          lobby :=
            { timeout := src.value [] .lobbyTimeout
              message := src.value [] .lobbyMessage
              readySound := src.value [] .readySound } },
        t.seen
          ["JOIN_METHODS", "JOIN_KICK_STARTING", "JOIN_KICK_STOPPING", "JOIN_HOLD_TIMEOUT",
           "JOIN_FORWARD_ADDRESS", "JOIN_FORWARD_SEND_PROXY_V2", "JOIN_LOBBY_TIMEOUT",
           "JOIN_LOBBY_MESSAGE", "JOIN_LOBBY_READY_SOUND"] (src.asked .forwardAddress)) := by
  have hforward := run_forward src (t.seen
    ["JOIN_METHODS", "JOIN_KICK_STARTING", "JOIN_KICK_STOPPING", "JOIN_HOLD_TIMEOUT"] [])
    (by simpa using ht) hquiet
  simp only [join, run_bind, run_lift, Reader.run_methods, run_kick, run_seconds, hforward,
    run_lobby, run_pure, Trace.seen_seen, List.cons_append, List.nil_append, List.append_nil]
  simp only [Source.value, text?_eq]
  rfl

theorem run_join_of_raises
    (ht : t.lookups = src.asked .frontAddress ++ src.asked .serverAddress) {raised : LookupError}
    (hraises : src.Raises .forwardAddress raised) :
    (join src).run.run t =
      (.error (.foreign raised),
        t.seen
          ["JOIN_METHODS", "JOIN_KICK_STARTING", "JOIN_KICK_STOPPING", "JOIN_HOLD_TIMEOUT",
           "JOIN_FORWARD_ADDRESS"] (src.asked .forwardAddress)) := by
  have hforward := run_forward_of_raises src (t.seen
    ["JOIN_METHODS", "JOIN_KICK_STARTING", "JOIN_KICK_STOPPING", "JOIN_HOLD_TIMEOUT"] [])
    (by simpa using ht) hraises
  simp only [join, run_bind, run_lift, Reader.run_methods, run_kick, run_seconds, hforward,
    Trace.seen_seen, List.cons_append, List.nil_append, List.append_nil]

theorem run_lockout : (lockout src).run.run t =
    (.ok { enabled := src.value [] .lockoutEnabled, message := src.value [] .lockoutMessage },
      t.seen ["LOCKOUT_ENABLED", "LOCKOUT_MESSAGE"] []) := by
  simp only [lockout, run_bind, run_lift, Reader.run_boolean, Reader.run_string, run_pure,
    Trace.seen_seen]
  simp only [Source.value, text?_eq, List.append_nil]
  rfl

theorem run_rcon : (rcon src).run.run t =
    (.ok
      { enabled := src.value [] .rconEnabled
        port := src.value [] .rconPort
        password := src.value [] .rconPassword
        randomizePassword := src.value [] .randomizePassword
        sendProxyV2 := src.value [] .rconProxyV2 },
      t.seen
        ["RCON_ENABLED", "RCON_PORT", "RCON_PASSWORD", "RCON_RANDOMIZE_PASSWORD",
         "RCON_SEND_PROXY_V2"] []) := by
  simp only [rcon, run_bind, run_lift, Reader.run_boolean, Reader.run_unsigned, Reader.run_string,
    run_pure, Trace.seen_seen]
  simp only [Source.value, text?_eq, List.append_nil]
  rfl

theorem run_advanced : (advanced src).run.run t =
    (.ok { rewriteServerProperties := src.value [] .rewriteProperties },
      t.seen ["ADVANCED_REWRITE_SERVER_PROPERTIES"] []) := by
  simp only [advanced, run_bind, run_lift, Reader.run_boolean, run_pure]
  simp only [Source.value, text?_eq]
  rfl

theorem run_format : (format src).run.run t =
    (.ok { version := src.value [] .formatVersion }, t.seen ["CONFIG_VERSION"] []) := by
  simp only [format, run_bind, run_lift, Reader.run_optionalString, run_pure]
  simp only [Source.value, text?_eq]
  rfl

theorem run_command_of_isCommand {text : String} (htext : src.text? .serverCommand = some text)
    (h : IsCommand (some text)) :
    (command src).run.run t = (.ok (Text.unescape text), t.seen ["SERVER_COMMAND"] []) := by
  rw [text?_eq, Setting.readerKey] at htext
  rw [isCommand_some] at h
  simp only [command, run_bind, run_lift, Reader.run_raw, htext, if_neg h, run_pure]

theorem run_command_of_not_isCommand (h : ¬ IsCommand (src.text? .serverCommand)) :
    (command src).run.run t = (.error (.own .missingCommand), t.seen ["SERVER_COMMAND"] []) := by
  simp only [command, run_bind, run_lift, Reader.run_raw]
  rw [text?_eq, Setting.readerKey] at h
  cases htext : src.environment.get? (Reader.fullName "SERVER_COMMAND") with
  | none => rfl
  | some text =>
    rw [htext, isCommand_some, not_not] at h
    simp only [if_pos h]
    rfl

/-! ## The whole tree -/

/-- The configuration that the variables describe, if there is a start command. -/
def described (src : Source) : Config :=
  .ofSettings fun s => src.value (s.heard src.text?) s

/-- Either no address raises an error, or one is the first that does. -/
theorem quiet_or_raisesFirst :
    (∀ s raised, ¬ src.Raises s raised) ∨ ∃ s raised, src.RaisesFirst s raised := by
  by_cases hfront : ∃ raised, src.Raises .frontAddress raised
  · obtain ⟨raised, h⟩ := hfront
    exact .inr ⟨_, raised, h, by simp [Setting.earlier]⟩
  by_cases hserver : ∃ raised, src.Raises .serverAddress raised
  · obtain ⟨raised, h⟩ := hserver
    refine .inr ⟨_, raised, h, ?_⟩
    simpa [Setting.earlier] using hfront
  by_cases hforward : ∃ raised, src.Raises .forwardAddress raised
  · obtain ⟨raised, h⟩ := hforward
    refine .inr ⟨_, raised, h, ?_⟩
    simpa [Setting.earlier] using And.intro hfront hserver
  refine .inl fun s raised h => ?_
  cases s with
  | frontAddress => exact hfront ⟨raised, h⟩
  | serverAddress => exact hserver ⟨raised, h⟩
  | forwardAddress => exact hforward ⟨raised, h⟩
  | _ => cases h.1

section Tree

variable {src} {text : String} (htext : src.text? .serverCommand = some text)
  (hcommand : IsCommand (some text))
include htext hcommand

/-- What is read of an environment with a start command where no address raises an error: every
variable once, and then nothing is left to fail. -/
theorem run_tree (hquiet : ∀ s raised, ¬ src.Raises s raised) :
    (tree src).run.run ⟨[], []⟩ =
      (.ok (described src), (⟨[], []⟩ : Trace).seen (Setting.readOrder.map Setting.readerKey)
        (src.asked .frontAddress ++ src.asked .serverAddress ++ src.asked .forwardAddress)) := by
  have hfront := fun t ht => run_front src t ht (hquiet .frontAddress)
  have hserver := fun t command ht => run_server src t command ht (hquiet .serverAddress)
  have hjoin := fun t ht => run_join src t ht (hquiet .forwardAddress)
  have hvalue : src.value (Setting.heard src.text? .serverCommand) .serverCommand
      = Text.unescape text := by
    rw [Source.value, htext]
    rfl
  have hdescribed : described src = .ofSettings fun s => src.value (s.heard src.text?) s := rfl
  simp only [tree, run_bind, run_command_of_isCommand src _ htext hcommand, hfront, hserver,
    run_time, run_motd, hjoin, run_lockout, run_rcon, run_advanced, run_format, run_pure,
    Trace.lookups_seen, Trace.seen_seen, List.nil_append, List.append_nil]
  rw [hdescribed, Config.ofSettings, hvalue, heard_serverAddress, heard_forwardAddress,
    List.append_assoc]
  rfl

/-- What is read where an address raises an error: every variable up to that of this address. -/
theorem run_tree_of_raises {s : Setting} {raised : LookupError}
    (h : src.RaisesFirst s raised) :
    (tree src).run.run ⟨[], []⟩ =
      (.error (.foreign raised), (⟨[], []⟩ : Trace).seen (s.readUntil.map Setting.readerKey)
        (s.heard src.text? ++ src.asked s)) := by
  obtain ⟨hraises, hfirst⟩ := h
  cases s with
  | frontAddress =>
    have hfront := fun t ht => run_front_of_raises src t ht hraises
    simp only [tree, run_bind, run_command_of_isCommand src _ htext hcommand, hfront,
      Trace.lookups_seen, Trace.seen_seen, List.nil_append, List.append_nil]
    rfl
  | serverAddress =>
    have hfront := fun t ht => run_front src t ht (hfirst .frontAddress (by simp [Setting.earlier]))
    have hserver := fun t command ht => run_server_of_raises src t command ht hraises
    simp only [tree, run_bind, run_command_of_isCommand src _ htext hcommand, hfront, hserver,
      Trace.lookups_seen, Trace.seen_seen, List.nil_append, List.append_nil]
    rw [heard_serverAddress]
    rfl
  | forwardAddress =>
    have hfront := fun t ht => run_front src t ht (hfirst .frontAddress (by simp [Setting.earlier]))
    have hserver := fun t command ht =>
      run_server src t command ht (hfirst .serverAddress (by simp [Setting.earlier]))
    have hjoin := fun t ht => run_join_of_raises src t ht hraises
    simp only [tree, run_bind, run_command_of_isCommand src _ htext hcommand, hfront, hserver,
      run_time, run_motd, hjoin, Trace.lookups_seen, Trace.seen_seen, List.nil_append,
      List.append_nil]
    rw [heard_forwardAddress]
    rfl
  | _ => cases hraises.1

end Tree

/-! ## Outcomes -/

variable {platform : Platform} {resolver : HostResolver} {e : Environment}

theorem exists_command (h : e.HasCommand) : ∃ text,
    Source.text? ⟨e, resolver, platform⟩ .serverCommand = some text ∧ IsCommand (some text) := by
  obtain ⟨text, htext, hblank⟩ := h
  refine ⟨text, ?_, text, rfl, hblank⟩
  rw [Source.text?, Setting.variableName_serverCommand]
  exact htext

/-- A tree is read where no address raises an error. -/
theorem read_of_quiet (h : e.HasCommand)
    (hquiet : ∀ s raised, ¬ Source.Raises ⟨e, resolver, platform⟩ s raised) :
    read platform resolver e = ⟨.ok (described ⟨e, resolver, platform⟩),
      (⟨[], []⟩ : Trace).seen (Setting.readOrder.map Setting.readerKey)
        (Source.asked ⟨e, resolver, platform⟩ .frontAddress
          ++ Source.asked ⟨e, resolver, platform⟩ .serverAddress
          ++ Source.asked ⟨e, resolver, platform⟩ .forwardAddress)⟩ := by
  obtain ⟨text, htext, hcommand⟩ := exists_command h
  rw [read, run_tree htext hcommand hquiet]

/-- The first error that an address raises is passed on. -/
theorem read_of_raisesFirst (h : e.HasCommand) {s : Setting} {raised : LookupError}
    (hraises : Source.RaisesFirst ⟨e, resolver, platform⟩ s raised) :
    read platform resolver e = ⟨.error (.foreign raised),
      (⟨[], []⟩ : Trace).seen (s.readUntil.map Setting.readerKey)
        (s.heard (Source.text? ⟨e, resolver, platform⟩)
          ++ Source.asked ⟨e, resolver, platform⟩ s)⟩ := by
  obtain ⟨text, htext, hcommand⟩ := exists_command h
  rw [read, run_tree_of_raises htext hcommand hraises]

theorem read_of_not_hasCommand (platform : Platform) (resolver : HostResolver)
    (h : ¬ e.HasCommand) :
    read platform resolver e
      = ⟨.error (.own .missingCommand), (⟨[], []⟩ : Trace).seen ["SERVER_COMMAND"] []⟩ := by
  have hcommand : ¬ IsCommand (Source.text? ⟨e, resolver, platform⟩ .serverCommand) := by
    rw [Source.text?, Setting.variableName_serverCommand]
    exact h
  rw [read, tree, run_bind, run_command_of_not_isCommand _ _ hcommand]

/-- Where there is a start command, a tree is read exactly if no address raises an error. -/
theorem exists_result_iff (h : e.HasCommand) :
    (∃ c, (read platform resolver e).result = .ok c) ↔
      ∀ s raised, ¬ Source.Raises ⟨e, resolver, platform⟩ s raised := by
  constructor
  · rintro ⟨c, hc⟩
    rcases quiet_or_raisesFirst ⟨e, resolver, platform⟩ with hquiet | ⟨s, raised, hraises⟩
    · exact hquiet
    · rw [read_of_raisesFirst h hraises] at hc
      cases hc
  · intro hquiet
    exact ⟨_, by rw [read_of_quiet h hquiet]⟩

/-- The names that are looked up for an address end with one that is refused without a text exactly
if the address raises an error. -/
theorem refusedLast_asked_iff (src : Source) {s : Setting} (hs : s.type = .address)
    {raised : LookupError}
    (hheard : ¬ SocketAddress.RefusedLast src.resolver (s.heard src.text?) raised) :
    SocketAddress.RefusedLast src.resolver (s.heard src.text? ++ src.asked s) raised ↔
      src.Raises s raised := by
  rw [Source.Raises, Setting.Raises, Source.asked]
  cases src.text? s with
  | none => simpa [hs] using hheard
  | some text => simp [hs, SocketAddress.refusedLast_append_asked hheard]

/-- What was looked up before an address ends with no such name where no earlier address raises an
error. -/
theorem not_refusedLast_heard (src : Source) {s : Setting}
    (h : ∀ s' ∈ s.earlier, ∀ raised, ¬ src.Raises s' raised) (raised : LookupError) :
    ¬ SocketAddress.RefusedLast src.resolver (s.heard src.text?) raised := by
  have hnil := SocketAddress.not_refusedLast_nil src.resolver raised
  cases s with
  | serverAddress =>
    rw [heard_serverAddress]
    exact fun hlast => h .frontAddress (by simp [Setting.earlier]) raised
      ((refusedLast_asked_iff src (s := .frontAddress) rfl hnil).1 hlast)
  | forwardAddress =>
    have hfront : ¬ SocketAddress.RefusedLast src.resolver (src.asked .frontAddress) raised :=
      fun hlast => h .frontAddress (by simp [Setting.earlier]) raised
        ((refusedLast_asked_iff src (s := .frontAddress) rfl hnil).1 hlast)
    rw [← heard_serverAddress] at hfront
    rw [heard_forwardAddress, ← heard_serverAddress]
    exact fun hlast => h .serverAddress (by simp [Setting.earlier]) raised
      ((refusedLast_asked_iff src rfl hfront).1 hlast)
  | _ => exact hnil

/-- An environment is read with a foreign error exactly if the last name that is looked up is
refused without a text. -/
theorem result_eq_foreign_iff {raised : LookupError} :
    (read platform resolver e).result = .error (.foreign raised) ↔
      SocketAddress.RefusedLast resolver (read platform resolver e).trace.lookups raised := by
  by_cases h : e.HasCommand
  · rcases quiet_or_raisesFirst ⟨e, resolver, platform⟩ with hquiet | ⟨s, raised', hraises⟩
    · have hheard := not_refusedLast_heard ⟨e, resolver, platform⟩ (s := .forwardAddress)
        (fun s' _ => hquiet s') raised
      have hlast := refusedLast_asked_iff _ rfl hheard
      rw [heard_forwardAddress] at hlast
      rw [read_of_quiet h hquiet]
      exact iff_of_false (fun h => nomatch h) fun h => hquiet _ _ (hlast.1 h)
    · have hheard := not_refusedLast_heard _ hraises.first raised
      have hlast := refusedLast_asked_iff _ hraises.raises.1 hheard
      rw [read_of_raisesFirst h hraises]
      constructor
      · intro h
        cases h
        exact hlast.2 hraises.raises
      · intro h
        rw [hraises.raises.unique (hlast.1 h)]
  · rw [read_of_not_hasCommand platform resolver h]
    exact iff_of_false (fun h => nomatch h) (SocketAddress.not_refusedLast_nil resolver raised)

/-- An error of its own is reported exactly where there is no start command, and it is that one. -/
theorem result_eq_own_iff {cause : EnvironmentError} :
    (read platform resolver e).result = .error (.own cause) ↔
      cause = .missingCommand ∧ ¬ e.HasCommand := by
  by_cases h : e.HasCommand
  · rcases quiet_or_raisesFirst ⟨e, resolver, platform⟩ with hquiet | ⟨s, raised, hraises⟩
    · rw [read_of_quiet h hquiet]
      simp [h]
    · rw [read_of_raisesFirst h hraises]
      simp [h]
  · rw [read_of_not_hasCommand platform resolver h]
    simp [h, eq_comm]

/-! ## Setting a variable -/

/-- What is raised for a setting follows from the names that are looked up for addresses. -/
theorem raises_iff_asked {src : Source} {s : Setting} {raised : LookupError} :
    src.Raises s raised ↔ s.type = .address ∧ ∃ host ∈ src.asked s,
      src.resolver (s.heard src.text?) host = .refused (.textless raised) := by
  rw [Source.Raises, Setting.Raises, Source.asked]
  cases src.text? s with
  | none => simp
  | some x => simp [SocketAddress.Raises]

/-- What is read follows from the start command, the value that the variable of each setting gives
and the names that are looked up for each address. -/
theorem read_congr_value (platform : Platform) (resolver : HostResolver) {e e' : Environment}
    (hcommand : e.get? Default.commandVariable = e'.get? Default.commandVariable)
    (hvalue : ∀ heard, Source.value ⟨e, resolver, platform⟩ heard
      = Source.value ⟨e', resolver, platform⟩ heard)
    (hasked : ∀ s : Setting, s.type = .address →
      Source.asked ⟨e, resolver, platform⟩ s = Source.asked ⟨e', resolver, platform⟩ s) :
    read platform resolver e = read platform resolver e' := by
  have hheard : ∀ s : Setting, s.heard (Source.text? ⟨e, resolver, platform⟩)
      = s.heard (Source.text? ⟨e', resolver, platform⟩) := Setting.heard_congr_asked hasked
  have hraises : ∀ s raised, Source.Raises ⟨e, resolver, platform⟩ s raised ↔
      Source.Raises ⟨e', resolver, platform⟩ s raised := by
    intro s raised
    rw [raises_iff_asked, raises_iff_asked, hheard]
    exact and_congr_right fun htype => by rw [hasked s htype]
  have hiff : e.HasCommand ↔ e'.HasCommand := by
    rw [Environment.HasCommand, Environment.HasCommand, hcommand]
  by_cases hc : e.HasCommand
  · rcases quiet_or_raisesFirst ⟨e, resolver, platform⟩ with hquiet | ⟨s, raised, hs⟩
    · have hquiet' : ∀ s raised, ¬ Source.Raises ⟨e', resolver, platform⟩ s raised :=
        fun s raised h => hquiet s raised ((hraises s raised).2 h)
      rw [read_of_quiet hc hquiet, read_of_quiet (hiff.1 hc) hquiet', described, described,
        hasked .frontAddress rfl, hasked .serverAddress rfl, hasked .forwardAddress rfl]
      simp only [hheard, hvalue]
    · have hs' : Source.RaisesFirst ⟨e', resolver, platform⟩ s raised :=
        ⟨(hraises _ _).1 hs.raises, fun s' hmem raised' h =>
          hs.first s' hmem raised' ((hraises _ _).2 h)⟩
      rw [read_of_raisesFirst hc hs, read_of_raisesFirst (hiff.1 hc) hs', hheard,
        hasked s hs.raises.1]
  · have hc' : ¬ e'.HasCommand := fun h' => hc (hiff.2 h')
    rw [read_of_not_hasCommand platform resolver hc, read_of_not_hasCommand platform resolver hc']

/-- What is read depends on no variable but those of the settings. -/
theorem read_congr (platform : Platform) (resolver : HostResolver) {e e' : Environment}
    (h : ∀ s : Setting, e.get? s.variableName = e'.get? s.variableName) :
    read platform resolver e = read platform resolver e' := by
  refine read_congr_value platform resolver ?_ (fun heard => funext fun s => ?_) fun s _ => ?_
  · rw [← Setting.variableName_serverCommand, h]
  · rw [Source.value, Source.value, Source.text?, Source.text?, h]
  · rw [Source.asked, Source.asked, Source.text?, Source.text?, h]

/-- Setting the variable of a setting changes the text of this setting and of no other. -/
theorem text?_set (platform : Platform) (resolver : HostResolver) (e : Environment)
    (s s' : Setting) (x? : Option String) :
    Source.text? ⟨e.set s.variableName x?, resolver, platform⟩ s'
      = if s' = s then x? else Source.text? ⟨e, resolver, platform⟩ s' := by
  rw [Source.text?, Source.text?, Environment.get?_set]
  by_cases hs : s' = s
  · rw [if_pos hs, if_pos (congrArg _ hs)]
  · rw [if_neg hs, if_neg fun h => hs (Setting.eq_of_variableName h)]

section Answers

variable (platform : Platform) (answer : String → HostAnswer) (e : Environment) (s : Setting)
  (x? : Option String)

/-- Where the answers for a name are always the same, setting a variable changes its setting and no
other. -/
theorem described_set :
    described ⟨e.set s.variableName x?, fun _ => answer, platform⟩ =
      (described ⟨e, fun _ => answer, platform⟩).put s
        (s.type.ofVariable answer (s.default platform) x?) := by
  rw [described, described, Config.put_ofSettings]
  congr 1
  funext s'
  by_cases hs : s' = s
  · subst hs
    rw [Function.update_self, Source.value, text?_set, if_pos rfl]
  · rw [Function.update_of_ne hs, Source.value, Source.value, text?_set, if_neg hs]

/-- Setting a variable changes what is raised for its setting and for no other. -/
theorem raises_set (s' : Setting) (raised : LookupError) :
    Source.Raises ⟨e.set s.variableName x?, fun _ => answer, platform⟩ s' raised ↔
      if s' = s then s.Raises answer x? raised
      else Source.Raises ⟨e, fun _ => answer, platform⟩ s' raised := by
  rw [Source.Raises, Source.Raises, text?_set]
  split
  · rename_i hs
    rw [hs]
  · rfl

variable {platform answer e s x?}

/-- Where a tree is read, it is an error of the text that a variable is set to that ends the
reading. -/
theorem result_set_eq_foreign_iff (h : (e.set s.variableName x?).HasCommand)
    (hquiet : ∀ s raised, ¬ Source.Raises ⟨e, fun _ => answer, platform⟩ s raised)
    (raised : LookupError) :
    (read platform (fun _ => answer) (e.set s.variableName x?)).result
        = .error (.foreign raised) ↔ s.Raises answer x? raised := by
  have hself : ∀ s' raised',
      Source.Raises ⟨e.set s.variableName x?, fun _ => answer, platform⟩ s' raised' → s' = s ∧
        s.Raises answer x? raised' := by
    intro s' raised' hraises
    rw [raises_set] at hraises
    split at hraises
    · rename_i hs
      exact ⟨hs, hraises⟩
    · exact absurd hraises (hquiet s' raised')
  constructor
  · intro hresult
    rcases quiet_or_raisesFirst ⟨e.set s.variableName x?, fun _ => answer, platform⟩
      with hquiet' | ⟨s', raised', hraises⟩
    · rw [read_of_quiet h hquiet'] at hresult
      cases hresult
    · rw [read_of_raisesFirst h hraises] at hresult
      cases hresult
      exact (hself _ _ hraises.raises).2
  · intro hraises
    have hfirst : Source.RaisesFirst ⟨e.set s.variableName x?, fun _ => answer, platform⟩ s
        raised := by
      refine ⟨(raises_set ..).2 (by rwa [if_pos rfl]), fun s' hs' raised' h' => ?_⟩
      rw [(hself s' raised' h').1] at hs'
      exact s.not_mem_earlier hs'
    rw [read_of_raisesFirst h hfirst]

end Answers

end FromEnvironment

/-- What the variable of a setting makes of its texts: the value that a text spells, and the default
for a text that spells none and where there is no text. -/
structure Setting.Decodes (s : Setting) (platform : Platform) (answer : String → HostAnswer)
    (value : Option String → s.type.Value) : Prop where
  unset : value none = s.default platform
  spelled : ∀ x v, s.type.Spells answer x v → value (some x) = v
  strange : ∀ x, (∀ v, ¬ s.type.Spells answer x v) → value (some x) = value none

theorem Setting.decodes_ofVariable (s : Setting) (platform : Platform)
    (answer : String → HostAnswer) :
    s.Decodes platform answer (s.type.ofVariable answer (s.default platform)) where
  unset := rfl
  spelled := by
    intro x v h
    rw [SettingType.ofVariable, Option.bind_some, (SettingType.ofText?_eq_some_iff s.isExact).2 h,
      Option.getD_some]
  strange := by
    intro x h
    have hnone : s.type.ofText? answer x = none := by
      rw [Option.eq_none_iff_forall_ne_some]
      exact fun v hv => h v ((SettingType.ofText?_eq_some_iff s.isExact).1 hv)
    rw [SettingType.ofVariable, SettingType.ofVariable, Option.bind_some, hnone, Option.bind_none]

/-- The variable of every documentation is that of a setting. -/
theorem VariableDoc.exists_setting {platform : Platform} {doc : VariableDoc}
    (h : doc ∈ all platform) :
    ∃ s : Setting, s.variableName = doc.name := by
  have hname : doc.name ∈ Setting.all.map Setting.variableName := by
    rw [← Setting.names_documented platform]
    exact List.mem_map_of_mem h
  obtain ⟨s, -, hs⟩ := List.mem_map.1 hname
  exact ⟨s, hs⟩

/-- **A variable changes one setting.** Let every name always have the same answer, and let the
environment give a start command. A tree is read exactly if no address variable holds a name that is
refused with something that has no text. Then a documented variable can be set to any text, or
unset. If that text raises such an error, this error is the outcome; otherwise the tree is the same
but for one leaf, that of the setting whose keys the variable spells. The value of this leaf follows
from the text alone, and a text that spells no value leaves the default. Variables that are not
documented change nothing. -/
theorem FromEnvironment.read_set (platform : Platform) (answer : String → HostAnswer) :
    (∀ e : Environment, e.HasCommand →
      ((∃ c, (read platform (fun _ => answer) e).result = .ok c) ↔
        ∀ (s : Setting) raised, ¬ s.Raises answer (e.get? s.variableName) raised)) ∧
    (∀ doc ∈ VariableDoc.all platform, ∃ s : Setting, s.variableName = doc.name ∧
      ∃ value : Option String → s.type.Value, s.Decodes platform answer value ∧
        ∀ e : Environment, e.HasCommand →
          ∀ c, (read platform (fun _ => answer) e).result = .ok c → ∀ x? : Option String,
          (doc.name = Default.commandVariable → IsCommand x?) →
          (∀ raised, (read platform (fun _ => answer) (e.set doc.name x?)).result
            = .error (.foreign raised) ↔ s.Raises answer x? raised) ∧
          ((∀ raised, ¬ s.Raises answer x? raised) → ∃ c',
            (read platform (fun _ => answer) (e.set doc.name x?)).result = .ok c' ∧
            c' = c.put s (value x?) ∧
            c'.toJson.at? s.keys = s.type.json? (value x?) ∧
            ∀ s' ≠ s, c'.toJson.at? s'.keys = c.toJson.at? s'.keys)) ∧
    ∀ name ∉ (VariableDoc.all platform).map VariableDoc.name, ∀ resolver e x?,
      read platform resolver (e.set name x?) = read platform resolver e := by
  refine ⟨fun e he => exists_result_iff he, ?_, ?_⟩
  · intro doc hdoc
    obtain ⟨s, hs⟩ := VariableDoc.exists_setting hdoc
    refine ⟨s, hs, _, s.decodes_ofVariable platform answer, fun e he c hc x? hx => ?_⟩
    have hquiet := (exists_result_iff he).1 ⟨c, hc⟩
    have hset : (e.set doc.name x?).HasCommand := by
      rw [Environment.HasCommand, Environment.get?_set]
      split
      · rename_i hname
        exact hx hname.symm
      · exact he
    rw [← hs] at hset ⊢
    refine ⟨result_set_eq_foreign_iff hset hquiet, fun hfree => ?_⟩
    have hquiet' : ∀ s' raised, ¬ Reader.Source.Raises
        ⟨e.set s.variableName x?, fun _ => answer, platform⟩ s' raised := by
      intro s' raised
      rw [raises_set]
      split
      · exact hfree raised
      · exact hquiet s' raised
    rw [read_of_quiet he hquiet] at hc
    obtain rfl := Except.ok.inj hc
    refine ⟨_, by rw [read_of_quiet hset hquiet'], ?_⟩
    rw [described_set]
    refine ⟨rfl, ?_, fun s' hne => ?_⟩
    · rw [Config.at?_keys, Config.get_put_self]
    · rw [Config.at?_keys, Config.at?_keys, Config.get_put_of_ne hne]
  · intro name hname resolver e x?
    refine read_congr platform resolver fun s => ?_
    have hne : s.variableName ≠ name := by
      rintro rfl
      refine hname ?_
      rw [Setting.names_documented]
      exact List.mem_map_of_mem s.mem_all
    rw [Environment.get?_set, if_neg hne]

/-- An environment with a start command and an address. -/
def twoVariables : Environment :=
  ⟨[("LAZYMC_SERVER_COMMAND", "x"), ("LAZYMC_SERVER_ADDRESS", "h:1")]⟩

theorem FromEnvironment.read_set_port :
    twoVariables.HasCommand ∧
    "LAZYMC_PORT" ∉ (VariableDoc.all .other).map VariableDoc.name ∧
    (∃ c c', (read .other (fun _ _ => .addresses ["::1"]) twoVariables).result = .ok c ∧
      (read .other (fun _ _ => .addresses ["::1"])
        (twoVariables.set "LAZYMC_RCON_PORT" (some "+80"))).result = .ok c' ∧
      c' = c.put .rconPort (80 : Nat)) ∧
    read .other (fun _ _ => .addresses ["::1"]) (twoVariables.set "LAZYMC_PORT" (some "80"))
      = read .other (fun _ _ => .addresses ["::1"]) twoVariables := by
  have hcommand : twoVariables.HasCommand := ⟨"x", by decide +kernel, 'x', by decide, by decide⟩
  have hother : "LAZYMC_PORT" ∉ (VariableDoc.all .other).map VariableDoc.name := by decide +kernel
  obtain ⟨doc, hdoc, hname⟩ : ∃ doc ∈ VariableDoc.all .other, doc.name = "LAZYMC_RCON_PORT" := by
    decide +kernel
  obtain ⟨htree, hdocumented, hrest⟩ := read_set .other fun _ => .addresses ["::1"]
  refine ⟨hcommand, hother, ?_, hrest _ hother _ twoVariables _⟩
  have hknown : ∀ (s : Setting) raised, ¬ s.Raises (fun _ => .addresses ["::1"])
      (twoVariables.get? s.variableName) raised := by
    rintro s raised ⟨-, x, -, host, -, hrefused⟩
    cases hrefused
  obtain ⟨c, hc⟩ := (htree twoVariables hcommand).2 hknown
  obtain ⟨s, hs, value, hvalue, hset⟩ := hdocumented doc hdoc
  have hport : s = .rconPort := by
    refine Setting.eq_of_variableName ?_
    rw [hs, hname]
    decide +kernel
  subst hport
  have hspells : Setting.rconPort.type.Spells (fun _ => .addresses ["::1"]) "+80" (80 : Nat) :=
    ⟨⟨['8', '0'], by decide +kernel, by simp, by simp [Text.isDigit], by decide +kernel⟩,
      by decide⟩
  have hfree : doc.name = Default.commandVariable → IsCommand (some "+80") := by
    rw [hname]
    exact fun h => absurd h (by decide)
  obtain ⟨c', hc', hput, -⟩ := (hset twoVariables hcommand c hc (some "+80") hfree).2
    fun raised h => nomatch h.1
  rw [hname] at hc'
  rw [hvalue.spelled "+80" (80 : Nat) hspells] at hput
  exact ⟨c, c', hc, hc', hput⟩

/-- An environment with a start command alone. -/
def oneVariable : Environment := ⟨[("LAZYMC_SERVER_COMMAND", "x")]⟩

/-- Every name is refused with something that has no text. -/
def allTextless : String → HostAnswer := fun _ => .refused (.textless SocketAddress.noText)

/-- To set an address to a name that is refused with something that has no text leaves no tree. -/
theorem FromEnvironment.read_set_textless :
    oneVariable.HasCommand ∧
    (∃ c, (read .other (fun _ => allTextless) oneVariable).result = .ok c) ∧
    (read .other (fun _ => allTextless)
      (oneVariable.set "LAZYMC_PUBLIC_ADDRESS" (some "h:1"))).result
        = .error (.foreign SocketAddress.noText) :=
  ⟨⟨"x", by decide +kernel, 'x', by decide, by decide⟩, ⟨_, rfl⟩, rfl⟩

end WakeConfig
