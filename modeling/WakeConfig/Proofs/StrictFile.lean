import WakeConfig.Proofs.FileReading

/-!
# Files are read strictly

Only what a table gives to the settings, and whether its sections are tables, decides what is read
of it. `build_congr` says so of two tables, and `build_exact` says when there is a configuration and
what is in it.
-/

namespace WakeConfig

open Toml (Value Table)

namespace FromToml

/-! ## Nothing else is looked at -/

/-- Two values are both sections, or they are the same. -/
def Alike (v? v'? : Option Value) : Prop :=
  v? = v'? ∨ ∃ origin entries origin' entries',
    v? = some (.table origin entries) ∧ v'? = some (.table origin' entries')

/-- Two tables give the same to every setting, under the same keys, and where one has a section
the other one has a section or the same value. -/
structure SameSettings (t t' : Table) : Prop where
  sections : ∀ path ∈ Layout.sections, Alike (valueAt? path t) (valueAt? path t')
  keys : ∀ s : Setting, s.keysIn t = s.keysIn t'
  values : ∀ s : Setting, s.given? t = s.given? t'

section Congr

variable {platform : Platform} {resolver : HostResolver} {t t' : Table} {key : String}

theorem inSection_congr {α : Type} {read : Option Table → Except ConfigError α} (name : String)
    (halike : Alike (t.get? key) (t'.get? key))
    (hread : read (some (sectionOf t key)) = read (some (sectionOf t' key))) :
    (subtable (some t) key name >>= read) = (subtable (some t') key name >>= read) := by
  rw [subtable, subtable, Option.bind_some, Option.bind_some]
  rcases halike with heq | ⟨origin, entries, origin', entries', ht, ht'⟩
  · rw [heq]
  · simp only [sectionOf, sectionTable?, ht, ht', Option.getD_some] at hread
    rw [ht, ht']
    exact hread

theorem readSection_congr {α : Type} {read : Option Table → Reading α} (name : String)
    (halike : Alike (t.get? key) (t'.get? key))
    (hread : read (some (sectionOf t key)) = read (some (sectionOf t' key))) :
    (checked (subtable (some t) key name) >>= read)
      = (checked (subtable (some t') key name) >>= read) := by
  rw [subtable, subtable, Option.bind_some, Option.bind_some]
  rcases halike with heq | ⟨origin, entries, origin', entries', ht, ht'⟩
  · rw [heq]
  · simp only [sectionOf, sectionTable?, ht, ht', Option.getD_some] at hread
    rw [ht, ht']
    exact hread

theorem front_congr (h : SameSettings t t') :
    front resolver (some (sectionOf t "public"))
      = front resolver (some (sectionOf t' "public")) := by
  have hkeys : ∀ key ∈ ["address", "version", "protocol"],
      (sectionOf t "public").get? key = (sectionOf t' "public").get? key := by
    simp only [List.forall_mem_cons]
    exact ⟨h.values .frontAddress, h.values .frontVersion, h.values .frontProtocol,
      List.forall_mem_nil _⟩
  simp only [List.forall_mem_cons] at hkeys
  simp only [front, address, field, hkeys]

theorem server_congr (h : SameSettings t t') :
    server resolver (some (sectionOf t "server"))
      = server resolver (some (sectionOf t' "server")) := by
  have hkeys : ∀ key ∈
      ["command", "directory", "address", "freeze_process", "wake_on_start", "wake_on_crash",
       "probe_on_start", "forge", "start_timeout", "stop_timeout", "wake_whitelist",
       "block_banned_ips", "drop_banned_ips", "send_proxy_v2"],
      (sectionOf t "server").get? key = (sectionOf t' "server").get? key := by
    simp only [List.forall_mem_cons]
    exact ⟨h.values .serverCommand, h.values .serverDirectory, h.values .serverAddress,
      h.values .freezeProcess, h.values .wakeOnStart, h.values .wakeOnCrash,
      h.values .probeOnStart, h.values .forge, h.values .startTimeout, h.values .stopTimeout,
      h.values .wakeWhitelist, h.values .blockBannedIps, h.values .dropBannedIps,
      h.values .serverProxyV2, List.forall_mem_nil _⟩
  simp only [List.forall_mem_cons] at hkeys
  simp only [server, address, field, hkeys]

theorem motd_congr (h : SameSettings t t') :
    motd (some (sectionOf t "motd")) = motd (some (sectionOf t' "motd")) := by
  have hkeys : ∀ key ∈ ["sleeping", "starting", "stopping", "from_server"],
      (sectionOf t "motd").get? key = (sectionOf t' "motd").get? key := by
    simp only [List.forall_mem_cons]
    exact ⟨h.values .motdSleeping, h.values .motdStarting, h.values .motdStopping,
      h.values .motdFromServer, List.forall_mem_nil _⟩
  simp only [List.forall_mem_cons] at hkeys
  simp only [motd, field, hkeys]

theorem kick_congr (h : SameSettings t t') :
    kick (some (sectionOf (sectionOf t "join") "kick"))
      = kick (some (sectionOf (sectionOf t' "join") "kick")) := by
  have hkeys : ∀ key ∈ ["starting", "stopping"],
      (sectionOf (sectionOf t "join") "kick").get? key
        = (sectionOf (sectionOf t' "join") "kick").get? key := by
    simp only [List.forall_mem_cons]
    exact ⟨h.values .kickStarting, h.values .kickStopping, List.forall_mem_nil _⟩
  simp only [List.forall_mem_cons] at hkeys
  simp only [kick, field, hkeys]

theorem hold_congr (h : SameSettings t t') :
    hold (some (sectionOf (sectionOf t "join") "hold"))
      = hold (some (sectionOf (sectionOf t' "join") "hold")) := by
  have hkeys : ∀ key ∈ ["timeout"],
      (sectionOf (sectionOf t "join") "hold").get? key
        = (sectionOf (sectionOf t' "join") "hold").get? key := by
    simp only [List.forall_mem_cons]
    exact ⟨h.values .holdTimeout, List.forall_mem_nil _⟩
  simp only [List.forall_mem_cons] at hkeys
  simp only [hold, field, hkeys]

theorem forward_congr (h : SameSettings t t') :
    forward resolver (some (sectionOf (sectionOf t "join") "forward"))
      = forward resolver (some (sectionOf (sectionOf t' "join") "forward")) := by
  have hkeys : ∀ key ∈ ["address", "send_proxy_v2"],
      (sectionOf (sectionOf t "join") "forward").get? key
        = (sectionOf (sectionOf t' "join") "forward").get? key := by
    simp only [List.forall_mem_cons]
    exact ⟨h.values .forwardAddress, h.values .forwardProxyV2, List.forall_mem_nil _⟩
  simp only [List.forall_mem_cons] at hkeys
  simp only [forward, address, field, hkeys]

theorem lobby_congr (h : SameSettings t t') :
    lobby (some (sectionOf (sectionOf t "join") "lobby"))
      = lobby (some (sectionOf (sectionOf t' "join") "lobby")) := by
  have hkeys : ∀ key ∈ ["timeout", "message", "ready_sound"],
      (sectionOf (sectionOf t "join") "lobby").get? key
        = (sectionOf (sectionOf t' "join") "lobby").get? key := by
    simp only [List.forall_mem_cons]
    exact ⟨h.values .lobbyTimeout, h.values .lobbyMessage, h.values .readySound,
      List.forall_mem_nil _⟩
  simp only [List.forall_mem_cons] at hkeys
  simp only [lobby, field, hkeys]

theorem lockout_congr (h : SameSettings t t') :
    lockout (some (sectionOf t "lockout")) = lockout (some (sectionOf t' "lockout")) := by
  have hkeys : ∀ key ∈ ["enabled", "message"],
      (sectionOf t "lockout").get? key = (sectionOf t' "lockout").get? key := by
    simp only [List.forall_mem_cons]
    exact ⟨h.values .lockoutEnabled, h.values .lockoutMessage, List.forall_mem_nil _⟩
  simp only [List.forall_mem_cons] at hkeys
  simp only [lockout, field, hkeys]

theorem rcon_congr (h : SameSettings t t') :
    rcon platform (some (sectionOf t "rcon")) = rcon platform (some (sectionOf t' "rcon")) := by
  have hkeys : ∀ key ∈ ["enabled", "port", "password", "randomize_password", "send_proxy_v2"],
      (sectionOf t "rcon").get? key = (sectionOf t' "rcon").get? key := by
    simp only [List.forall_mem_cons]
    exact ⟨h.values .rconEnabled, h.values .rconPort, h.values .rconPassword,
      h.values .randomizePassword, h.values .rconProxyV2, List.forall_mem_nil _⟩
  simp only [List.forall_mem_cons] at hkeys
  simp only [rcon, field, hkeys]

theorem advanced_congr (h : SameSettings t t') :
    advanced (some (sectionOf t "advanced")) = advanced (some (sectionOf t' "advanced")) := by
  have hkeys : ∀ key ∈ ["rewrite_server_properties"],
      (sectionOf t "advanced").get? key = (sectionOf t' "advanced").get? key := by
    simp only [List.forall_mem_cons]
    exact ⟨h.values .rewriteProperties, List.forall_mem_nil _⟩
  simp only [List.forall_mem_cons] at hkeys
  simp only [advanced, field, hkeys]

theorem format_congr (h : SameSettings t t') :
    format (some (sectionOf t "config")) = format (some (sectionOf t' "config")) := by
  have hkeys : ∀ key ∈ ["version"],
      (sectionOf t "config").get? key = (sectionOf t' "config").get? key := by
    simp only [List.forall_mem_cons]
    exact ⟨h.values .formatVersion, List.forall_mem_nil _⟩
  simp only [List.forall_mem_cons] at hkeys
  simp only [format, field, hkeys]

theorem time_congr (h : SameSettings t t') :
    time (some (sectionOf t "time")) = time (some (sectionOf t' "time")) := by
  have hsleep : (sectionOf t "time").get? "sleep_after"
      = (sectionOf t' "time").get? "sleep_after" :=
    h.values .sleepAfter
  have hkey : minOnlineKey (sectionOf t "time") = minOnlineKey (sectionOf t' "time") :=
    (List.cons.inj (List.cons.inj (h.keys .minOnlineTime)).2).1
  have honline : (sectionOf t "time").get? (minOnlineKey (sectionOf t "time"))
      = (sectionOf t' "time").get? (minOnlineKey (sectionOf t' "time")) := h.values .minOnlineTime
  rw [hkey] at honline
  simp only [time, field, hsleep, hkey, honline]

theorem join_congr (h : SameSettings t t') :
    join resolver (some (sectionOf t "join")) = join resolver (some (sectionOf t' "join")) := by
  have hmethods : (sectionOf t "join").get? "methods" = (sectionOf t' "join").get? "methods" :=
    h.values .joinMethods
  have hkick : Alike ((sectionOf t "join").get? "kick") ((sectionOf t' "join").get? "kick") :=
    h.sections ["join", "kick"] (by decide)
  have hhold : Alike ((sectionOf t "join").get? "hold") ((sectionOf t' "join").get? "hold") :=
    h.sections ["join", "hold"] (by decide)
  have hforward :
      Alike ((sectionOf t "join").get? "forward") ((sectionOf t' "join").get? "forward") :=
    h.sections ["join", "forward"] (by decide)
  have hlobby : Alike ((sectionOf t "join").get? "lobby") ((sectionOf t' "join").get? "lobby") :=
    h.sections ["join", "lobby"] (by decide)
  simp only [join, field, hmethods, ← bind_assoc]
  rw [inSection_congr _ hkick (kick_congr h), inSection_congr _ hhold (hold_congr h),
    readSection_congr _ hforward (forward_congr h), inSection_congr _ hlobby (lobby_congr h)]

theorem tree_congr (h : SameSettings t t') :
    tree platform resolver t = tree platform resolver t' := by
  have hsections := h.sections
  simp only [Layout.sections, List.forall_mem_cons] at hsections
  obtain ⟨hpublic, hserver, htime, hmotd, hjoin, -, -, -, -, hlockout, hrcon, hadvanced, hconfig,
    -⟩ := hsections
  rw [tree, tree]
  rw [readSection_congr _ hpublic (front_congr h), readSection_congr _ hserver (server_congr h),
    inSection_congr _ htime (time_congr h), inSection_congr _ hmotd (motd_congr h),
    readSection_congr _ hjoin (join_congr h), inSection_congr _ hlockout (lockout_congr h),
    inSection_congr _ hrcon (rcon_congr h), inSection_congr _ hadvanced (advanced_congr h),
    inSection_congr _ hconfig (format_congr h)]

theorem lacks_sectionTable? (t : Table) (name key : String) :
    lacks (sectionTable? t name) key = ((sectionOf t name).get? key).isNone := by
  rw [lacks, sectionOf]
  cases sectionTable? t name <;> rfl

theorem isNone_sectionTable?_congr (h : Alike (t.get? key) (t'.get? key)) :
    (sectionTable? t key).isNone = (sectionTable? t' key).isNone := by
  rw [sectionTable?, sectionTable?]
  rcases h with heq | ⟨origin, entries, origin', entries', ht, ht'⟩
  · rw [heq]
  · rw [ht, ht']
    rfl

/-- Which default parts a tree holds follows from what is given to four settings and from whether
there is a section `join`. -/
theorem common_eq (t : Table) : common t =
    { frontAddress := (Setting.frontAddress.given? t).isNone
      serverAddress := (Setting.serverAddress.given? t).isNone
      methods := (Setting.joinMethods.given? t).isNone
      joinSections := (sectionTable? t "join").isNone
      forwardAddress := (Setting.forwardAddress.given? t).isNone } := by
  have hforward : lacks ((sectionTable? t "join").bind fun j => sectionTable? j "forward") "address"
      = (Setting.forwardAddress.given? t).isNone := by
    show _ = ((sectionOf (sectionOf t "join") "forward").get? "address").isNone
    rw [← lacks_sectionTable?]
    conv_rhs => rw [sectionOf]
    cases sectionTable? t "join" <;> rfl
  simp only [common, lacks_sectionTable?, hforward]
  rfl

/-- What is built of a table follows from what it gives to the settings and from its sections. -/
theorem build_congr (h : SameSettings t t') :
    build platform resolver t = build platform resolver t' := by
  have hcommon : common t = common t' := by
    have hjoin := isNone_sectionTable?_congr (h.sections ["join"] (by decide))
    rw [common_eq, common_eq, h.values, h.values, h.values, h.values, hjoin]
  rw [build, build, tree_congr h, hcommon]

end Congr

theorem isSome_command_iff (t : Table) :
    (Setting.serverCommand.given? t).isSome = true ↔
      ∃ entries, sectionTable? t "server" = some entries ∧
        (entries.get? "command").isSome = true := by
  show ((sectionOf t "server").get? "command").isSome = true ↔ _
  rw [sectionOf]
  cases sectionTable? t "server" with
  | none => simp [Toml.Table.get?_nil]
  | some entries => simp

/-- **A file is read strictly and exactly.** A table has a configuration if and only if `server` is
a table with a command, every known section is a table where it is present, and every value that the
table gives to a setting is one of the type of the setting. Then each setting has exactly what it is
given, and its default where nothing is. Two tables that give the same to the settings have the same
outcome, whatever else is in them. For a number this lets a float pass as well, where it was not
marked and is whole: it is read as if it were the integer. -/
theorem build_exact (platform : Platform) (resolver : HostResolver) (t : Table) :
    ((∃ c, (build platform resolver t).result = .ok c) ↔
      (∃ entries, sectionTable? t "server" = some entries ∧
        (entries.get? "command").isSome = true) ∧
      (∀ path ∈ Layout.sections, IsSection (valueAt? path t)) ∧
      ∀ s : Setting, ∀ v ∈ s.given? t, ∃ x, s.type.Gives (resolver (s.heard (texts t))) v x) ∧
    (∀ c, (build platform resolver t).result = .ok c → c.path = none ∧
      ∀ s : Setting, (s.given? t = none → s.get c = s.default platform) ∧
        ∀ v ∈ s.given? t, s.type.Gives (resolver (s.heard (texts t))) v (s.get c)) ∧
    (∀ t', SameSettings t t' → build platform resolver t' = build platform resolver t) ∧
    ∀ text, table? text = some t → parse platform resolver text = build platform resolver t := by
  refine ⟨?_, fun c hc => ?_, fun t' h => (build_congr h).symm, fun text h => by rw [parse, h]⟩
  · rw [exists_build_iff, isSome_command_iff]
  · obtain ⟨hpath, -, -, htakes⟩ := build_eq_ok_iff.1 hc
    refine ⟨hpath, fun s => ?_⟩
    have hs := htakes s
    unfold Setting.Takes SettingType.Takes at hs
    cases hgiven : s.given? t with
    | none =>
      rw [hgiven] at hs
      exact ⟨fun _ => hs, fun v hv => nomatch hv⟩
    | some v =>
      rw [hgiven] at hs
      refine ⟨fun h => (Option.some_ne_none v h).elim, fun w hw => ?_⟩
      obtain rfl := Option.some.inj hw
      exact hs

/-- A table with a name under an address, a second name for one number, and a key of no setting. -/
def someTable : Table :=
  [("server", .table .header
      [("command", .string "x"), ("address", .string "h:1"), ("stop_timeout", .integer 9 false)]),
   ("time", .table .header
      [("min_online_time", .integer 5 false), ("minimum_online_time", .datetime)]),
   ("other", .boolean true)]

/-- What a table like `someTable` gives to the settings, and nothing else. -/
def plainTable : Table :=
  [("time", .table .inline [("min_online_time", .integer 5 false)]),
   ("server", .table .inline
      [("stop_timeout", .integer 9 false), ("address", .string "h:1"), ("command", .string "x")])]

theorem build_exact_someTable :
    SameSettings someTable plainTable ∧
    build .other (fun _ _ => .addresses ["::1"]) plainTable
      = build .other (fun _ _ => .addresses ["::1"]) someTable ∧
    ∃ c, (build .other (fun _ _ => .addresses ["::1"]) someTable).result = .ok c ∧
      (Setting.stopTimeout.type.Gives (fun _ => .addresses ["::1"]) (.integer 9 false)
        (Setting.stopTimeout.get c)) ∧
      Setting.startTimeout.get c = Setting.startTimeout.default .other := by
  have hsame : SameSettings someTable plainTable := by
    constructor
    · simp only [Layout.sections, List.forall_mem_cons]
      exact ⟨.inl rfl, .inr ⟨_, _, _, _, rfl, rfl⟩, .inr ⟨_, _, _, _, rfl, rfl⟩, .inl rfl, .inl rfl,
        .inl rfl, .inl rfl, .inl rfl, .inl rfl, .inl rfl, .inl rfl, .inl rfl, .inl rfl,
        List.forall_mem_nil _⟩
    · intro s
      cases s <;> rfl
    · intro s
      cases s <;> rfl
  obtain ⟨c, hc⟩ := exists_ok
    (x := (build .other (fun _ _ => .addresses ["::1"]) someTable).result) (by decide +kernel)
  have hexact := build_exact .other (fun _ _ => .addresses ["::1"]) someTable
  refine ⟨hsame, hexact.2.2.1 plainTable hsame, c, hc, ?_, ?_⟩
  · exact ((hexact.2.1 c hc).2 .stopTimeout).2 (.integer 9 false) rfl
  · exact ((hexact.2.1 c hc).2 .startTimeout).1 rfl

/-- A text that gives a float to a number, which is left unfinished in front of the brace. -/
def unfinishedText : String := "server = \x7bcommand = \"x\", start_timeout = 60.\x7d\n"

/-- The table of that text. -/
def unfinishedTable : Table :=
  [("server", .table .inline [("command", .string "x"), ("start_timeout", .float "60.")])]

/-- A float is taken for a number: it is not marked, since no digit stands behind its point, and it
counts as the integer 60. -/
theorem build_exact_unfinished :
    table? unfinishedText = some unfinishedTable ∧
    Setting.startTimeout.given? unfinishedTable = some (.float "60.") ∧
    ∃ c, (build .other (fun _ _ => .addresses []) unfinishedTable).result = .ok c ∧
      Setting.startTimeout.get c = (60 : Nat) := by
  have hread : Toml.read? unfinishedText.toList = some unfinishedTable := by decide +kernel
  have hplain : Toml.FloatLiteral.mark unfinishedText.toList = unfinishedText.toList := by
    decide +kernel
  have hnumber : (build .other (fun _ _ => .addresses []) unfinishedTable).result.toOption.map
      (fun c => c.server.startTimeout) = some 60 := by
    decide +kernel
  obtain ⟨c, hc, h⟩ := Option.map_eq_some_iff.1 hnumber
  exact ⟨by simp only [table?, hread, hplain, if_true], rfl, c, eq_ok_of_toOption hc, h⟩

end FromToml

end WakeConfig
