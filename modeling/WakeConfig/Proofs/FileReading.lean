import WakeConfig.Proofs.FileValues

/-!
# What a file gives

A table has a configuration exactly if its sections are tables, it has a start command, and what it
gives to each setting is of the type of the setting; then every setting has what it is given, or its
default. This is said of each section first, and `build_eq_ok_iff` says it of the whole tree.
-/

namespace WakeConfig

open Toml (Value Table)

namespace FromToml

/-! ## Places in a table -/

/-- The entries of a section. A section that is missing has none. -/
def sectionOf (t : Table) (key : String) : Table := (sectionTable? t key).getD []

/-- The value under a path of keys. -/
def valueAt? : List String → Table → Option Value
  | [], _ => none
  | [key], t => t.get? key
  | key :: next :: path, t => valueAt? (next :: path) (sectionOf t key)

theorem valueAt?_cons {path : List String} (hp : path ≠ []) (key : String) (t : Table) :
    valueAt? (key :: path) t = valueAt? path (sectionOf t key) := by
  obtain ⟨next, path, rfl⟩ := List.exists_cons_of_ne_nil hp
  rfl

theorem valueAt?_nil (path : List String) : valueAt? path [] = none := by
  induction path with
  | nil => rfl
  | cons key path ih =>
    by_cases hp : path = []
    · subst hp
      rfl
    · rw [valueAt?_cons hp]
      exact ih

/-- A value under a path is that of an entry, or under the rest of the path in a section. -/
theorem exists_entry {t : Table} {path : List String} {v : Value}
    (h : valueAt? path t = some v) :
    ∃ key w, (key, w) ∈ t ∧ ((path = [key] ∧ w = v) ∨ ∃ rest origin entries,
      path = key :: rest ∧ w = .table origin entries ∧ valueAt? rest entries = some v) := by
  have hmem : ∀ {key w}, t.get? key = some w → (key, w) ∈ t := by
    intro key w hw
    obtain ⟨before, after, rfl, -⟩ := List.lookup_eq_some_iff.1 hw
    exact List.mem_append_right _ List.mem_cons_self
  cases path with
  | nil => cases h
  | cons key path =>
    by_cases hp : path = []
    · subst hp
      exact ⟨key, v, hmem h, .inl ⟨rfl, rfl⟩⟩
    · rw [valueAt?_cons hp, sectionOf, sectionTable?] at h
      split at h
      · rename_i origin entries hw
        exact ⟨key, _, hmem hw, .inr ⟨path, origin, entries, rfl, rfl, h⟩⟩
      · rw [Option.getD_none, valueAt?_nil] at h
        cases h

/-- What is under a key is a section, if anything is there. -/
def IsSection (v? : Option Value) : Prop := ∀ v ∈ v?, ∃ origin entries, v = .table origin entries

/-! ## Fields -/

section Fields

variable (answer : String → HostAnswer) {t : Table} {place key : String}

theorem field_string {fallback x : String} :
    field t place key fallback string = .ok x ↔
      SettingType.text.Takes answer fallback (t.get? key) x :=
  field_eq_ok .text fun _ _ => string_eq_ok

theorem field_optionalString {fallback x : Option String} :
    field t place key fallback (fun name v => (string name v).map some) = .ok x ↔
      SettingType.optionalText.Takes answer fallback (t.get? key) x :=
  field_eq_ok .optionalText fun _ _ => optionalString_eq_ok

theorem field_boolean {fallback x : Bool} :
    field t place key fallback boolean = .ok x ↔
      SettingType.flag.Takes answer fallback (t.get? key) x :=
  field_eq_ok .flag fun _ _ => boolean_eq_ok

theorem field_seconds {fallback x : Nat} :
    field t place key fallback (unsigned Default.maxU32) = .ok x ↔
      (SettingType.number Default.maxU32).Takes answer fallback (t.get? key) x :=
  field_eq_ok (.number _) fun _ _ => unsigned_eq_ok (by decide)

theorem field_port {fallback x : Nat} :
    field t place key fallback (unsigned Default.maxU16) = .ok x ↔
      (SettingType.number Default.maxU16).Takes answer fallback (t.get? key) x :=
  field_eq_ok (.number _) fun _ _ => unsigned_eq_ok (by decide)

theorem field_methods {fallback x : List JoinMethod} :
    field t place key fallback methods = .ok x ↔
      SettingType.methods.Takes answer fallback (t.get? key) x :=
  field_eq_ok .methods fun _ _ => methods_eq_ok

end Fields

/-! ## Sections -/

section Sections

variable {platform : Platform} {resolver : HostResolver} {t : Table} {h h' : List String}

theorem yields_front (platform : Platform) {c : FrontConfig} :
    Yields (front resolver (some t)) h c h' ↔
      Setting.frontAddress.Takes platform (resolver h) (t.get? "address") c.address ∧
      Setting.frontVersion.Takes platform (resolver []) (t.get? "version") c.version ∧
      Setting.frontProtocol.Takes platform (resolver []) (t.get? "protocol") c.protocol ∧
      h' = h ++ askedOf (t.get? "address") := by
  simp only [front, yields_address_bind, yields_checked_bind, field_string (resolver []),
    field_seconds (resolver []), yields_pure]
  constructor
  · rintro ⟨_, haddress, _, hversion, _, hprotocol, rfl, rfl⟩
    exact ⟨haddress, hversion, hprotocol, rfl⟩
  · rintro ⟨haddress, hversion, hprotocol, rfl⟩
    exact ⟨_, haddress, _, hversion, _, hprotocol, rfl, rfl⟩

theorem yields_server (platform : Platform) {c : ServerConfig} :
    Yields (server resolver (some t)) h c h' ↔
      ((t.get? "command").isSome = true ∧
        Setting.serverCommand.Takes platform (resolver []) (t.get? "command") c.command) ∧
      Setting.serverDirectory.Takes platform (resolver []) (t.get? "directory") c.directory ∧
      Setting.serverAddress.Takes platform (resolver h) (t.get? "address") c.address ∧
      Setting.freezeProcess.Takes platform (resolver []) (t.get? "freeze_process") c.freezeProcess ∧
      Setting.wakeOnStart.Takes platform (resolver []) (t.get? "wake_on_start") c.wakeOnStart ∧
      Setting.wakeOnCrash.Takes platform (resolver []) (t.get? "wake_on_crash") c.wakeOnCrash ∧
      Setting.probeOnStart.Takes platform (resolver []) (t.get? "probe_on_start") c.probeOnStart ∧
      Setting.forge.Takes platform (resolver []) (t.get? "forge") c.forge ∧
      Setting.startTimeout.Takes platform (resolver []) (t.get? "start_timeout") c.startTimeout ∧
      Setting.stopTimeout.Takes platform (resolver []) (t.get? "stop_timeout") c.stopTimeout ∧
      Setting.wakeWhitelist.Takes platform (resolver []) (t.get? "wake_whitelist") c.wakeWhitelist ∧
      Setting.blockBannedIps.Takes platform (resolver []) (t.get? "block_banned_ips")
        c.blockBannedIps ∧
      Setting.dropBannedIps.Takes platform (resolver []) (t.get? "drop_banned_ips")
        c.dropBannedIps ∧
      Setting.serverProxyV2.Takes platform (resolver []) (t.get? "send_proxy_v2") c.sendProxyV2 ∧
      h' = h ++ askedOf (t.get? "address") := by
  rw [server]
  cases hcommand : t.get? "command" with
  | none => simp [not_yields_throw]
  | some v =>
    simp only [yields_address_bind, yields_checked_bind, field_string (resolver []),
      field_boolean (resolver []), field_seconds (resolver []), string_eq_ok, yields_pure,
      Option.isSome_some, true_and]
    constructor
    · rintro ⟨_, hdirectory, _, htext, _, haddress, _, hfreeze, _, hstart, _, hcrash, _, hprobe,
        _, hforge, _, hstarts, _, hstops, _, hwhitelist, _, hblock, _, hdrop, _, hproxy, rfl, rfl⟩
      exact ⟨htext, hdirectory, haddress, hfreeze, hstart, hcrash, hprobe, hforge, hstarts, hstops,
        hwhitelist, hblock, hdrop, hproxy, rfl⟩
    · rintro ⟨htext, hdirectory, haddress, hfreeze, hstart, hcrash, hprobe, hforge, hstarts, hstops,
        hwhitelist, hblock, hdrop, hproxy, rfl⟩
      exact ⟨_, hdirectory, _, htext, _, haddress, _, hfreeze, _, hstart, _, hcrash, _, hprobe,
        _, hforge, _, hstarts, _, hstops, _, hwhitelist, _, hblock, _, hdrop, _, hproxy, rfl, rfl⟩

variable (answer : String → HostAnswer)

theorem time_eq_ok {c : TimeConfig} :
    time (some t) = .ok c ↔
      Setting.sleepAfter.Takes platform answer (t.get? "sleep_after") c.sleepAfter ∧
      Setting.minOnlineTime.Takes platform answer (t.get? (minOnlineKey t)) c.minOnlineTime := by
  simp only [time, bind_eq_ok, field_seconds answer, Except.ok.injEq]
  constructor
  · rintro ⟨_, hsleep, _, honline, rfl⟩
    exact ⟨hsleep, honline⟩
  · rintro ⟨hsleep, honline⟩
    exact ⟨_, hsleep, _, honline, rfl⟩

theorem motd_eq_ok {c : MotdConfig} :
    motd (some t) = .ok c ↔
      Setting.motdSleeping.Takes platform answer (t.get? "sleeping") c.sleeping ∧
      Setting.motdStarting.Takes platform answer (t.get? "starting") c.starting ∧
      Setting.motdStopping.Takes platform answer (t.get? "stopping") c.stopping ∧
      Setting.motdFromServer.Takes platform answer (t.get? "from_server") c.fromServer := by
  simp only [motd, bind_eq_ok, field_string answer, field_boolean answer, Except.ok.injEq]
  constructor
  · rintro ⟨_, hsleeping, _, hstarting, _, hstopping, _, hserver, rfl⟩
    exact ⟨hsleeping, hstarting, hstopping, hserver⟩
  · rintro ⟨hsleeping, hstarting, hstopping, hserver⟩
    exact ⟨_, hsleeping, _, hstarting, _, hstopping, _, hserver, rfl⟩

theorem kick_eq_ok {c : KickConfig} :
    kick (some t) = .ok c ↔
      Setting.kickStarting.Takes platform answer (t.get? "starting") c.starting ∧
      Setting.kickStopping.Takes platform answer (t.get? "stopping") c.stopping := by
  simp only [kick, bind_eq_ok, field_string answer, Except.ok.injEq]
  constructor
  · rintro ⟨_, hstarting, _, hstopping, rfl⟩
    exact ⟨hstarting, hstopping⟩
  · rintro ⟨hstarting, hstopping⟩
    exact ⟨_, hstarting, _, hstopping, rfl⟩

theorem hold_eq_ok {c : HoldConfig} :
    hold (some t) = .ok c ↔
      Setting.holdTimeout.Takes platform answer (t.get? "timeout") c.timeout := by
  simp only [hold, bind_eq_ok, field_seconds answer, Except.ok.injEq]
  constructor
  · rintro ⟨_, htimeout, rfl⟩
    exact htimeout
  · intro htimeout
    exact ⟨_, htimeout, rfl⟩

theorem lobby_eq_ok {c : LobbyConfig} :
    lobby (some t) = .ok c ↔
      Setting.lobbyTimeout.Takes platform answer (t.get? "timeout") c.timeout ∧
      Setting.lobbyMessage.Takes platform answer (t.get? "message") c.message ∧
      Setting.readySound.Takes platform answer (t.get? "ready_sound") c.readySound := by
  simp only [lobby, bind_eq_ok, field_string answer, field_seconds answer,
    field_optionalString answer, Except.ok.injEq]
  constructor
  · rintro ⟨_, htimeout, _, hmessage, _, hsound, rfl⟩
    exact ⟨htimeout, hmessage, hsound⟩
  · rintro ⟨htimeout, hmessage, hsound⟩
    exact ⟨_, htimeout, _, hmessage, _, hsound, rfl⟩

theorem lockout_eq_ok {c : LockoutConfig} :
    lockout (some t) = .ok c ↔
      Setting.lockoutEnabled.Takes platform answer (t.get? "enabled") c.enabled ∧
      Setting.lockoutMessage.Takes platform answer (t.get? "message") c.message := by
  simp only [lockout, bind_eq_ok, field_string answer, field_boolean answer, Except.ok.injEq]
  constructor
  · rintro ⟨_, henabled, _, hmessage, rfl⟩
    exact ⟨henabled, hmessage⟩
  · rintro ⟨henabled, hmessage⟩
    exact ⟨_, henabled, _, hmessage, rfl⟩

theorem rcon_eq_ok {c : RconConfig} :
    rcon platform (some t) = .ok c ↔
      Setting.rconEnabled.Takes platform answer (t.get? "enabled") c.enabled ∧
      Setting.rconPort.Takes platform answer (t.get? "port") c.port ∧
      Setting.rconPassword.Takes platform answer (t.get? "password") c.password ∧
      Setting.randomizePassword.Takes platform answer (t.get? "randomize_password")
        c.randomizePassword ∧
      Setting.rconProxyV2.Takes platform answer (t.get? "send_proxy_v2") c.sendProxyV2 := by
  simp only [rcon, bind_eq_ok, field_string answer, field_boolean answer, field_port answer,
    Except.ok.injEq]
  constructor
  · rintro ⟨_, henabled, _, hport, _, hpassword, _, hrandom, _, hproxy, rfl⟩
    exact ⟨henabled, hport, hpassword, hrandom, hproxy⟩
  · rintro ⟨henabled, hport, hpassword, hrandom, hproxy⟩
    exact ⟨_, henabled, _, hport, _, hpassword, _, hrandom, _, hproxy, rfl⟩

theorem advanced_eq_ok {c : AdvancedConfig} :
    advanced (some t) = .ok c ↔
      Setting.rewriteProperties.Takes platform answer (t.get? "rewrite_server_properties")
        c.rewriteServerProperties := by
  simp only [advanced, bind_eq_ok, field_boolean answer, Except.ok.injEq]
  constructor
  · rintro ⟨_, hrewrite, rfl⟩
    exact hrewrite
  · intro hrewrite
    exact ⟨_, hrewrite, rfl⟩

theorem format_eq_ok {c : FormatConfig} :
    format (some t) = .ok c ↔
      Setting.formatVersion.Takes platform answer (t.get? "version") c.version := by
  simp only [format, bind_eq_ok, field_optionalString answer, Except.ok.injEq]
  constructor
  · rintro ⟨_, hversion, rfl⟩
    exact hversion
  · intro hversion
    exact ⟨_, hversion, rfl⟩

theorem yields_forward (platform : Platform) {c : ForwardConfig} :
    Yields (forward resolver (some t)) h c h' ↔
      Setting.forwardAddress.Takes platform (resolver h) (t.get? "address") c.address ∧
      Setting.forwardProxyV2.Takes platform (resolver []) (t.get? "send_proxy_v2") c.sendProxyV2 ∧
      h' = h ++ askedOf (t.get? "address") := by
  simp only [forward, yields_address_bind, yields_checked_bind, field_boolean (resolver []),
    yields_pure]
  constructor
  · rintro ⟨_, haddress, _, hproxy, rfl, rfl⟩
    exact ⟨haddress, hproxy, rfl⟩
  · rintro ⟨haddress, hproxy, rfl⟩
    exact ⟨_, haddress, _, hproxy, rfl, rfl⟩

theorem exists_subtable_iff {key name : String} {p : Option Table → Prop} :
    (∃ t?, subtable (some t) key name = .ok t? ∧ p t?) ↔
      IsSection (t.get? key) ∧ p (sectionTable? t key) := by
  rw [subtable, Option.bind_some, sectionTable?]
  cases t.get? key with
  | none => simp [IsSection]
  | some v => cases v <;> simp [IsSection]

/-- A section that is missing is read like an empty one. -/
theorem read_section {α : Type} {read : Option Table → α} {key : String}
    (hnone : read none = read (some [])) :
    read (sectionTable? t key) = read (some (sectionOf t key)) := by
  rw [sectionOf]
  cases sectionTable? t key with
  | none => exact hnone
  | some s => rfl

theorem inSection_eq_ok {α : Type} {read : Option Table → Except ConfigError α} {key name : String}
    {a : α} (hnone : read none = read (some [])) :
    (subtable (some t) key name >>= read) = .ok a ↔
      IsSection (t.get? key) ∧ read (some (sectionOf t key)) = .ok a := by
  rw [bind_eq_ok, exists_subtable_iff, read_section hnone]

theorem yields_join (platform : Platform) {c : JoinConfig} :
    Yields (join resolver (some t)) h c h' ↔
      Setting.joinMethods.Takes platform (resolver []) (t.get? "methods") c.methods ∧
      (IsSection (t.get? "kick") ∧ kick (some (sectionOf t "kick")) = .ok c.kick) ∧
      (IsSection (t.get? "hold") ∧ hold (some (sectionOf t "hold")) = .ok c.hold) ∧
      (IsSection (t.get? "forward") ∧
        Yields (forward resolver (some (sectionOf t "forward"))) h c.forward h') ∧
      (IsSection (t.get? "lobby") ∧ lobby (some (sectionOf t "lobby")) = .ok c.lobby) := by
  have hkick : kick none = kick (some []) := rfl
  have hhold : hold none = hold (some []) := rfl
  have hforward : forward resolver none = forward resolver (some []) := rfl
  have hlobby : lobby none = lobby (some []) := rfl
  simp only [join, yields_checked_bind, field_methods (resolver []), inSection_eq_ok hkick,
    inSection_eq_ok hhold, inSection_eq_ok hlobby, exists_subtable_iff,
    yields_bind (r := forward resolver _), yields_pure, read_section hforward]
  constructor
  · rintro ⟨_, hmethods, _, hkick, _, hhold, hsection, _, _, hforward, _, hlobby, rfl, rfl⟩
    exact ⟨hmethods, hkick, hhold, ⟨hsection, hforward⟩, hlobby⟩
  · rintro ⟨hmethods, hkick, hhold, ⟨hsection, hforward⟩, hlobby⟩
    exact ⟨_, hmethods, _, hkick, _, hhold, hsection, _, _, hforward, _, hlobby, rfl, rfl⟩

/-- The tree of a table, section by section. Names are looked up in three of them. -/
theorem yields_tree {c : Config} :
    Yields (tree platform resolver t) h c h' ↔ ∃ h₁ h₂,
      c.path = none ∧
      (IsSection (t.get? "public") ∧
        Yields (front resolver (some (sectionOf t "public"))) h c.front h₁) ∧
      (IsSection (t.get? "server") ∧
        Yields (server resolver (some (sectionOf t "server"))) h₁ c.server h₂) ∧
      (IsSection (t.get? "time") ∧ time (some (sectionOf t "time")) = .ok c.time) ∧
      (IsSection (t.get? "motd") ∧ motd (some (sectionOf t "motd")) = .ok c.motd) ∧
      (IsSection (t.get? "join") ∧
        Yields (join resolver (some (sectionOf t "join"))) h₂ c.join h') ∧
      (IsSection (t.get? "lockout") ∧ lockout (some (sectionOf t "lockout")) = .ok c.lockout) ∧
      (IsSection (t.get? "rcon") ∧ rcon platform (some (sectionOf t "rcon")) = .ok c.rcon) ∧
      (IsSection (t.get? "advanced") ∧
        advanced (some (sectionOf t "advanced")) = .ok c.advanced) ∧
      (IsSection (t.get? "config") ∧ format (some (sectionOf t "config")) = .ok c.format) := by
  have hfront : front resolver none = front resolver (some []) := rfl
  have htime : time none = time (some []) := rfl
  have hmotd : motd none = motd (some []) := rfl
  have hjoin : join resolver none = join resolver (some []) := rfl
  have hlockout : lockout none = lockout (some []) := rfl
  have hrcon : rcon platform none = rcon platform (some []) := rfl
  have hadvanced : advanced none = advanced (some []) := rfl
  have hformat : format none = format (some []) := rfl
  -- a section `server` that is missing is an error of its own
  have hserver : ∀ {c h h'}, Yields (server resolver (sectionTable? t "server")) h c h' ↔
      Yields (server resolver (some (sectionOf t "server"))) h c h' := by
    intro c h h'
    rw [sectionOf]
    cases sectionTable? t "server" with
    | some s => exact Iff.rfl
    | none => exact iff_of_false not_yields_throw not_yields_throw
  rw [tree]
  simp only [yields_checked_bind, inSection_eq_ok htime, inSection_eq_ok hmotd,
    inSection_eq_ok hlockout, inSection_eq_ok hrcon, inSection_eq_ok hadvanced,
    inSection_eq_ok hformat, yields_bind (r := checked _ >>= _), exists_subtable_iff,
    yields_pure, read_section hfront, read_section hjoin, hserver]
  constructor
  · rintro ⟨_, h₁, hfront, _, h₂, hserver, _, htime, _, hmotd, _, _, hjoin, _, hlockout, _, hrcon,
      _, hadvanced, _, hformat, rfl, rfl⟩
    exact ⟨h₁, h₂, rfl, hfront, hserver, htime, hmotd, hjoin, hlockout, hrcon, hadvanced, hformat⟩
  · rintro ⟨h₁, h₂, hpath, hfront, hserver, htime, hmotd, hjoin, hlockout, hrcon, hadvanced,
      hformat⟩
    refine ⟨_, h₁, hfront, _, h₂, hserver, _, htime, _, hmotd, _, _, hjoin, _, hlockout, _, hrcon,
      _, hadvanced, _, hformat, ?_, rfl⟩
    rw [← hpath]

end Sections

end FromToml

/-! ## What a table gives -/

namespace Setting

/-- The keys under which a table gives a value to a setting. The least online time has a second
name, which counts where the first one is absent. -/
def keysIn : Setting → Table → List String
  | minOnlineTime, t => ["time", FromToml.minOnlineKey (FromToml.sectionOf t "time")]
  | s, _ => s.keys

/-- The settings of a section. -/
def inSection (path : List String) : List Setting := all.filter fun s => s.place.sections = path

/-- The value that a table gives to a setting. -/
def given? (s : Setting) (t : Table) : Option Value := FromToml.valueAt? (s.keysIn t) t

end Setting

namespace FromToml

/-- The texts that a table gives to settings. -/
def texts (t : Table) (s : Setting) : Option String := (s.given? t).bind Value.text?

theorem heard_serverAddress (t : Table) :
    Setting.serverAddress.heard (texts t) = askedOf (Setting.frontAddress.given? t) := by
  simp [Setting.heard, Setting.earlier, texts, askedOf]

theorem heard_forwardAddress (t : Table) :
    Setting.forwardAddress.heard (texts t) =
      askedOf (Setting.frontAddress.given? t) ++ askedOf (Setting.serverAddress.given? t) := by
  simp [Setting.heard, Setting.earlier, texts, askedOf]

theorem exists_yields_iff {platform : Platform} {resolver : HostResolver} {t : Table}
    {c : Config} :
    (build platform resolver t).result = .ok c ↔ ∃ h, Yields (tree platform resolver t) [] c h := by
  constructor
  · intro h
    exact ⟨_, h, rfl⟩
  · rintro ⟨_, h, rfl⟩
    exact h

/-! ## Settings of a section -/

/-- A setting has what it takes of a table, after the names that are looked up before it. -/
def Fits (platform : Platform) (resolver : HostResolver) (t : Table) (c : Config) (s : Setting) :
    Prop :=
  s.Takes platform (resolver (s.heard (texts t))) (s.given? t) (s.get c)

section Fits

variable {platform : Platform} {resolver : HostResolver} {t : Table} {c : Config}
  {h h' : List String}

theorem fits_serverAddress : Fits platform resolver t c .serverAddress ↔
    Setting.serverAddress.Takes platform (resolver (askedOf (Setting.frontAddress.given? t)))
      (Setting.serverAddress.given? t) c.server.address := by
  rw [Fits, heard_serverAddress]
  rfl

theorem fits_forwardAddress : Fits platform resolver t c .forwardAddress ↔
    Setting.forwardAddress.Takes platform
      (resolver (askedOf (Setting.frontAddress.given? t) ++
        askedOf (Setting.serverAddress.given? t)))
      (Setting.forwardAddress.given? t) c.join.forward.address := by
  rw [Fits, heard_forwardAddress]
  rfl

theorem front_fits : Yields (front resolver (some (sectionOf t "public"))) [] c.front h' ↔
    (∀ s ∈ Setting.inSection ["public"], Fits platform resolver t c s) ∧
      h' = askedOf (Setting.frontAddress.given? t) := by
  have hsettings : Setting.inSection ["public"] = [.frontAddress, .frontVersion, .frontProtocol] :=
    rfl
  rw [yields_front platform, hsettings]
  simp only [List.forall_mem_cons, List.not_mem_nil, false_implies, implies_true, and_true,
    and_assoc]
  exact Iff.rfl

theorem server_fits (hh : h = askedOf (Setting.frontAddress.given? t)) :
    Yields (server resolver (some (sectionOf t "server"))) h c.server h' ↔
      (Setting.serverCommand.given? t).isSome = true ∧
      (∀ s ∈ Setting.inSection ["server"], Fits platform resolver t c s) ∧
      h' = askedOf (Setting.frontAddress.given? t) ++ askedOf (Setting.serverAddress.given? t) := by
  have hsettings : Setting.inSection ["server"] =
      [.serverCommand, .serverDirectory, .serverAddress, .freezeProcess, .wakeOnStart,
       .wakeOnCrash, .probeOnStart, .forge, .startTimeout, .stopTimeout, .wakeWhitelist,
       .blockBannedIps, .dropBannedIps, .serverProxyV2] := rfl
  subst hh
  rw [yields_server platform, hsettings]
  simp only [List.forall_mem_cons, List.not_mem_nil, false_implies, implies_true, and_true,
    and_assoc, fits_serverAddress]
  exact Iff.rfl

theorem time_fits : time (some (sectionOf t "time")) = .ok c.time ↔
    ∀ s ∈ Setting.inSection ["time"], Fits platform resolver t c s := by
  have hsettings : Setting.inSection ["time"] = [.sleepAfter, .minOnlineTime] := rfl
  rw [time_eq_ok (resolver []), hsettings]
  simp only [List.forall_mem_cons, List.not_mem_nil, false_implies, implies_true, and_true]
  exact Iff.rfl

theorem motd_fits : motd (some (sectionOf t "motd")) = .ok c.motd ↔
    ∀ s ∈ Setting.inSection ["motd"], Fits platform resolver t c s := by
  have hsettings : Setting.inSection ["motd"] =
      [.motdSleeping, .motdStarting, .motdStopping, .motdFromServer] := rfl
  rw [motd_eq_ok (resolver []), hsettings]
  simp only [List.forall_mem_cons, List.not_mem_nil, false_implies, implies_true, and_true]
  exact Iff.rfl

theorem kick_fits : kick (some (sectionOf (sectionOf t "join") "kick")) = .ok c.join.kick ↔
    ∀ s ∈ Setting.inSection ["join", "kick"], Fits platform resolver t c s := by
  have hsettings : Setting.inSection ["join", "kick"] = [.kickStarting, .kickStopping] := rfl
  rw [kick_eq_ok (resolver []), hsettings]
  simp only [List.forall_mem_cons, List.not_mem_nil, false_implies, implies_true, and_true]
  exact Iff.rfl

theorem hold_fits : hold (some (sectionOf (sectionOf t "join") "hold")) = .ok c.join.hold ↔
    ∀ s ∈ Setting.inSection ["join", "hold"], Fits platform resolver t c s := by
  have hsettings : Setting.inSection ["join", "hold"] = [.holdTimeout] := rfl
  rw [hold_eq_ok (resolver []), hsettings]
  simp only [List.forall_mem_cons, List.not_mem_nil, false_implies, implies_true, and_true]
  exact Iff.rfl

theorem forward_fits
    (hh : h = askedOf (Setting.frontAddress.given? t) ++ askedOf (Setting.serverAddress.given? t)) :
    Yields (forward resolver (some (sectionOf (sectionOf t "join") "forward"))) h
        c.join.forward h' ↔
      (∀ s ∈ Setting.inSection ["join", "forward"], Fits platform resolver t c s) ∧
      h' = h ++ askedOf (Setting.forwardAddress.given? t) := by
  have hsettings : Setting.inSection ["join", "forward"] = [.forwardAddress, .forwardProxyV2] := rfl
  subst hh
  rw [yields_forward platform, hsettings]
  simp only [List.forall_mem_cons, List.not_mem_nil, false_implies, implies_true, and_true,
    and_assoc, fits_forwardAddress]
  exact Iff.rfl

theorem lobby_fits : lobby (some (sectionOf (sectionOf t "join") "lobby")) = .ok c.join.lobby ↔
    ∀ s ∈ Setting.inSection ["join", "lobby"], Fits platform resolver t c s := by
  have hsettings : Setting.inSection ["join", "lobby"] =
      [.lobbyTimeout, .lobbyMessage, .readySound] := rfl
  rw [lobby_eq_ok (resolver []), hsettings]
  simp only [List.forall_mem_cons, List.not_mem_nil, false_implies, implies_true, and_true]
  exact Iff.rfl

theorem lockout_fits : lockout (some (sectionOf t "lockout")) = .ok c.lockout ↔
    ∀ s ∈ Setting.inSection ["lockout"], Fits platform resolver t c s := by
  have hsettings : Setting.inSection ["lockout"] = [.lockoutEnabled, .lockoutMessage] := rfl
  rw [lockout_eq_ok (resolver []), hsettings]
  simp only [List.forall_mem_cons, List.not_mem_nil, false_implies, implies_true, and_true]
  exact Iff.rfl

theorem rcon_fits : rcon platform (some (sectionOf t "rcon")) = .ok c.rcon ↔
    ∀ s ∈ Setting.inSection ["rcon"], Fits platform resolver t c s := by
  have hsettings : Setting.inSection ["rcon"] =
      [.rconEnabled, .rconPort, .rconPassword, .randomizePassword, .rconProxyV2] := rfl
  rw [rcon_eq_ok (resolver []), hsettings]
  simp only [List.forall_mem_cons, List.not_mem_nil, false_implies, implies_true, and_true]
  exact Iff.rfl

theorem advanced_fits : advanced (some (sectionOf t "advanced")) = .ok c.advanced ↔
    ∀ s ∈ Setting.inSection ["advanced"], Fits platform resolver t c s := by
  have hsettings : Setting.inSection ["advanced"] = [.rewriteProperties] := rfl
  rw [advanced_eq_ok (resolver []), hsettings]
  simp only [List.forall_mem_cons, List.not_mem_nil, false_implies, implies_true, and_true]
  exact Iff.rfl

theorem format_fits : format (some (sectionOf t "config")) = .ok c.format ↔
    ∀ s ∈ Setting.inSection ["config"], Fits platform resolver t c s := by
  have hsettings : Setting.inSection ["config"] = [.formatVersion] := rfl
  rw [format_eq_ok (resolver []), hsettings]
  simp only [List.forall_mem_cons, List.not_mem_nil, false_implies, implies_true, and_true]
  exact Iff.rfl

/-- A statement about all settings is one about those of each section. -/
theorem forall_inSection {p : Setting → Prop} :
    (∀ s, p s) ↔ ∀ path ∈ Layout.sections, ∀ s ∈ Setting.inSection path, p s := by
  have hsections : ∀ s : Setting, s.place.sections ∈ Layout.sections := by
    intro s
    cases s <;> decide
  refine ⟨fun h path _ s _ => h s, fun h s => h _ (hsections s) s ?_⟩
  exact List.mem_filter.2 ⟨s.mem_all, decide_eq_true rfl⟩

/-- A table has a configuration if there is a start command, its sections are tables, and every
setting takes what the table gives to it. -/
theorem build_eq_ok_iff :
    (build platform resolver t).result = .ok c ↔
      c.path = none ∧ (Setting.serverCommand.given? t).isSome = true ∧
      (∀ path ∈ Layout.sections, IsSection (valueAt? path t)) ∧
      ∀ s : Setting, s.Takes platform (resolver (s.heard (texts t))) (s.given? t) (s.get c) := by
  have hmethods : Setting.inSection ["join"] = [.joinMethods] := rfl
  rw [exists_yields_iff, show (∀ s : Setting, s.Takes platform (resolver (s.heard (texts t)))
    (s.given? t) (s.get c)) ↔ _ from forall_inSection (p := Fits platform resolver t c)]
  simp only [yields_tree, yields_join platform, Layout.sections,
    List.forall_mem_cons, hmethods]
  constructor
  · rintro ⟨_, _, _, hpath, ⟨hpublic, hfront⟩, ⟨hserver, hfields⟩, ⟨htime, htimes⟩,
      ⟨hmotd, htexts⟩,
      ⟨hjoin, hmethod, ⟨hkick, hkicks⟩, ⟨hhold, hholds⟩, ⟨hforward, hforwards⟩,
        ⟨hlobby, hlobbies⟩⟩,
      ⟨hlockout, hlockouts⟩, ⟨hrcon, hrcons⟩, ⟨hadvanced, hrewrite⟩, ⟨hconfig, hversion⟩⟩
    obtain ⟨hfront, hfirst⟩ := front_fits.1 hfront
    obtain ⟨hcommand, hfields, hsecond⟩ := (server_fits hfirst).1 hfields
    exact ⟨hpath, hcommand, ⟨hpublic, hserver, htime, hmotd, hjoin, hkick, hhold, hforward, hlobby,
        hlockout, hrcon, hadvanced, hconfig, List.forall_mem_nil _⟩,
      hfront, hfields, time_fits.1 htimes, motd_fits.1 htexts, ⟨hmethod, List.forall_mem_nil _⟩,
      kick_fits.1 hkicks, hold_fits.1 hholds, ((forward_fits hsecond).1 hforwards).1,
      lobby_fits.1 hlobbies, lockout_fits.1 hlockouts, rcon_fits.1 hrcons,
      advanced_fits.1 hrewrite, format_fits.1 hversion, List.forall_mem_nil _⟩
  · rintro ⟨hpath, hcommand, ⟨hpublic, hserver, htime, hmotd, hjoin, hkick, hhold, hforward, hlobby,
        hlockout, hrcon, hadvanced, hconfig, -⟩,
      hfront, hfields, htimes, htexts, ⟨hmethod, -⟩, hkicks, hholds, hforwards, hlobbies,
      hlockouts, hrcons, hrewrite, hversion, -⟩
    exact ⟨_, _, _, hpath, ⟨hpublic, front_fits.2 ⟨hfront, rfl⟩⟩,
      ⟨hserver, (server_fits rfl).2 ⟨hcommand, hfields, rfl⟩⟩, ⟨htime, time_fits.2 htimes⟩,
      ⟨hmotd, motd_fits.2 htexts⟩,
      ⟨hjoin, hmethod, ⟨hkick, kick_fits.2 hkicks⟩, ⟨hhold, hold_fits.2 hholds⟩,
        ⟨hforward, (forward_fits rfl).2 ⟨hforwards, rfl⟩⟩, ⟨hlobby, lobby_fits.2 hlobbies⟩⟩,
      ⟨hlockout, lockout_fits.2 hlockouts⟩, ⟨hrcon, rcon_fits.2 hrcons⟩,
      ⟨hadvanced, advanced_fits.2 hrewrite⟩, ⟨hconfig, format_fits.2 hversion⟩⟩

/-- A table has a configuration if every setting finds a value. -/
theorem exists_build_iff :
    (∃ c, (build platform resolver t).result = .ok c) ↔
      (Setting.serverCommand.given? t).isSome = true ∧
      (∀ path ∈ Layout.sections, IsSection (valueAt? path t)) ∧
      ∀ s : Setting, ∀ v ∈ s.given? t, ∃ x, s.type.Gives (resolver (s.heard (texts t))) v x := by
  constructor
  · rintro ⟨c, hc⟩
    obtain ⟨-, hcommand, hsections, htakes⟩ := build_eq_ok_iff.1 hc
    refine ⟨hcommand, hsections, fun s v hv => ⟨s.get c, ?_⟩⟩
    have hs := htakes s
    rwa [Option.mem_def.1 hv] at hs
  · rintro ⟨hcommand, hsections, hgives⟩
    have hexists : ∀ s : Setting, ∃ x,
        s.Takes platform (resolver (s.heard (texts t))) (s.given? t) x := by
      intro s
      cases hs : s.given? t with
      | none => exact ⟨s.default platform, rfl⟩
      | some v => exact hgives s v hs
    obtain ⟨g, hg⟩ := Classical.skolem.1 hexists
    refine ⟨.ofSettings g, build_eq_ok_iff.2 ⟨rfl, hcommand, hsections, fun s => ?_⟩⟩
    rw [Config.get_ofSettings]
    exact hg s

end Fits

end FromToml

end WakeConfig
