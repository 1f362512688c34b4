import WakeConfig.Proofs.Checks

/-!
# The first error

The reading of a table makes the checks of `checks`, section by section. So the error is the fault
of the first check that fails, and the host names that are looked up are those of the addresses up
to there.
-/

namespace WakeConfig

open Toml (Value Table)

namespace FromToml

variable {platform : Platform} {resolver : HostResolver} {t : Table}

/-! ## Sections -/

theorem performs_front :
    Performs resolver t (checked (subtable (some t) "public" "public") >>= front resolver)
      (Check.ofSection ["public"] [.frontAddress, .frontVersion, .frontProtocol]) := by
  refine performs_section rfl rfl rfl ?_
  unfold front
  refine (performs_address (s := .frontAddress) rfl rfl rfl).step fun _ => ?_
  refine (performs_text (s := .frontVersion) rfl rfl rfl).step fun _ => ?_
  exact (performs_number (s := .frontProtocol) rfl rfl rfl).last

/-- The fields of the section of the server are checked once it has a command. -/
theorem performs_server :
    Performs resolver t (checked (subtable (some t) "server" "server") >>= server resolver)
      serverChecks := by
  have htable : Performs resolver t (checked (subtable (some t) "server" "server"))
      [.isTable ["server"]] := performs_subtable rfl rfl
  refine htable.bind fun _ t? _ h => ?_
  have hsection := (yields_checked.1 h).1
  rw [subtable, Option.bind_some] at hsection
  split at hsection
  · rename_i hnone
    obtain rfl := Except.ok.inj hsection
    exact .fails (fun _ => by rw [Check.fault?, hnone]; rfl) rfl
  · rename_i origin sec hsec
    obtain rfl := Except.ok.inj hsection
    refine .passes (fun _ => by rw [Check.fault?, hsec]; rfl) rfl ?_
    have hserver : sec = sectionOf t "server" := by rw [sectionOf, sectionTable?, hsec]; rfl
    have hgiven : Setting.serverCommand.given? t = Table.get? sec "command" := by rw [hserver]; rfl
    rw [server]
    cases hcommand : Table.get? sec "command" with
    | none => exact .fails (fun _ => by rw [Check.fault?, hgiven, hcommand]; rfl) rfl
    | some command =>
      refine .passes (fun _ => by rw [Check.fault?, hgiven, hcommand]; rfl) rfl ?_
      subst hserver
      refine (performs_text (s := .serverDirectory) rfl rfl rfl).step fun _ => ?_
      refine Performs.step (c := .value .serverCommand) (.checked rfl fun answer => ?_) fun _ => ?_
      · rw [Check.fault?, hgiven, hcommand]
        exact fault?_string answer
      refine (performs_address (s := .serverAddress) rfl rfl rfl).step fun _ => ?_
      refine (performs_flag (s := .freezeProcess) rfl rfl rfl).step fun _ => ?_
      refine (performs_flag (s := .wakeOnStart) rfl rfl rfl).step fun _ => ?_
      refine (performs_flag (s := .wakeOnCrash) rfl rfl rfl).step fun _ => ?_
      refine (performs_flag (s := .probeOnStart) rfl rfl rfl).step fun _ => ?_
      refine (performs_flag (s := .forge) rfl rfl rfl).step fun _ => ?_
      refine (performs_number (s := .startTimeout) rfl rfl rfl).step fun _ => ?_
      refine (performs_number (s := .stopTimeout) rfl rfl rfl).step fun _ => ?_
      refine (performs_flag (s := .wakeWhitelist) rfl rfl rfl).step fun _ => ?_
      refine (performs_flag (s := .blockBannedIps) rfl rfl rfl).step fun _ => ?_
      refine (performs_flag (s := .dropBannedIps) rfl rfl rfl).step fun _ => ?_
      exact (performs_flag (s := .serverProxyV2) rfl rfl rfl).last
  · cases hsection

theorem performs_time :
    Performs resolver t (checked (subtable (some t) "time" "time" >>= time))
      (Check.ofSection ["time"] [.sleepAfter, .minOnlineTime]) := by
  rw [checked_bind]
  refine performs_section rfl rfl rfl ?_
  simp only [time, checked_bind]
  refine (performs_number (s := .sleepAfter) rfl rfl rfl).step fun _ => ?_
  exact (performs_number (s := .minOnlineTime) rfl rfl rfl).last

theorem performs_motd :
    Performs resolver t (checked (subtable (some t) "motd" "motd" >>= motd))
      (Check.ofSection ["motd"]
        [.motdSleeping, .motdStarting, .motdStopping, .motdFromServer]) := by
  rw [checked_bind]
  refine performs_section rfl rfl rfl ?_
  simp only [motd, checked_bind]
  refine (performs_text (s := .motdSleeping) rfl rfl rfl).step fun _ => ?_
  refine (performs_text (s := .motdStarting) rfl rfl rfl).step fun _ => ?_
  refine (performs_text (s := .motdStopping) rfl rfl rfl).step fun _ => ?_
  exact (performs_flag (s := .motdFromServer) rfl rfl rfl).last

theorem performs_kick :
    Performs resolver t
      (checked (subtable (some (sectionOf t "join")) "kick" "join.kick" >>= kick))
      (Check.ofSection ["join", "kick"] [.kickStarting, .kickStopping]) := by
  rw [checked_bind]
  refine performs_section rfl rfl rfl ?_
  simp only [kick, checked_bind]
  refine (performs_text (s := .kickStarting) rfl rfl rfl).step fun _ => ?_
  exact (performs_text (s := .kickStopping) rfl rfl rfl).last

theorem performs_hold :
    Performs resolver t
      (checked (subtable (some (sectionOf t "join")) "hold" "join.hold" >>= hold))
      (Check.ofSection ["join", "hold"] [.holdTimeout]) := by
  rw [checked_bind]
  refine performs_section rfl rfl rfl ?_
  simp only [hold, checked_bind]
  exact (performs_number (s := .holdTimeout) rfl rfl rfl).last

theorem performs_forward :
    Performs resolver t
      (checked (subtable (some (sectionOf t "join")) "forward" "join.forward")
        >>= forward resolver)
      (Check.ofSection ["join", "forward"] [.forwardAddress, .forwardProxyV2]) := by
  refine performs_section rfl rfl rfl ?_
  unfold forward
  refine (performs_address (s := .forwardAddress) rfl rfl rfl).step fun _ => ?_
  exact (performs_flag (s := .forwardProxyV2) rfl rfl rfl).last

theorem performs_lobby :
    Performs resolver t
      (checked (subtable (some (sectionOf t "join")) "lobby" "join.lobby" >>= lobby))
      (Check.ofSection ["join", "lobby"] [.lobbyTimeout, .lobbyMessage, .readySound]) := by
  rw [checked_bind]
  refine performs_section rfl rfl rfl ?_
  simp only [lobby, checked_bind]
  refine (performs_number (s := .lobbyTimeout) rfl rfl rfl).step fun _ => ?_
  refine (performs_text (s := .lobbyMessage) rfl rfl rfl).step fun _ => ?_
  exact (performs_optionalText (s := .readySound) rfl rfl rfl).last

theorem performs_join :
    Performs resolver t (checked (subtable (some t) "join" "join") >>= join resolver)
      (joinChecks t) := by
  simp only [joinChecks, List.append_assoc]
  refine performs_section rfl rfl rfl ?_
  simp only [join]
  refine performs_methods.bind fun _ _ _ _ => ?_
  refine performs_kick.bind fun _ _ _ _ => ?_
  refine performs_hold.bind fun _ _ _ _ => ?_
  rw [← bind_assoc]
  refine performs_forward.bind fun _ _ _ _ => ?_
  exact performs_lobby.last

theorem performs_lockout :
    Performs resolver t (checked (subtable (some t) "lockout" "lockout" >>= lockout))
      (Check.ofSection ["lockout"] [.lockoutEnabled, .lockoutMessage]) := by
  rw [checked_bind]
  refine performs_section rfl rfl rfl ?_
  simp only [lockout, checked_bind]
  refine (performs_flag (s := .lockoutEnabled) rfl rfl rfl).step fun _ => ?_
  exact (performs_text (s := .lockoutMessage) rfl rfl rfl).last

theorem performs_rcon :
    Performs resolver t (checked (subtable (some t) "rcon" "rcon" >>= rcon platform))
      (Check.ofSection ["rcon"]
        [.rconEnabled, .rconPort, .rconPassword, .randomizePassword, .rconProxyV2]) := by
  rw [checked_bind]
  refine performs_section rfl rfl rfl ?_
  simp only [rcon, checked_bind]
  refine (performs_flag (s := .rconEnabled) rfl rfl rfl).step fun _ => ?_
  refine (performs_number (s := .rconPort) rfl rfl rfl).step fun _ => ?_
  refine (performs_text (s := .rconPassword) rfl rfl rfl).step fun _ => ?_
  refine (performs_flag (s := .randomizePassword) rfl rfl rfl).step fun _ => ?_
  exact (performs_flag (s := .rconProxyV2) rfl rfl rfl).last

theorem performs_advanced :
    Performs resolver t (checked (subtable (some t) "advanced" "advanced" >>= advanced))
      (Check.ofSection ["advanced"] [.rewriteProperties]) := by
  rw [checked_bind]
  refine performs_section rfl rfl rfl ?_
  simp only [advanced, checked_bind]
  exact (performs_flag (s := .rewriteProperties) rfl rfl rfl).last

theorem performs_format :
    Performs resolver t (checked (subtable (some t) "config" "config" >>= format))
      (Check.ofSection ["config"] [.formatVersion]) := by
  rw [checked_bind]
  refine performs_section rfl rfl rfl ?_
  simp only [format, checked_bind]
  exact (performs_optionalText (s := .formatVersion) rfl rfl rfl).last

/-! ## The whole tree -/

theorem performs_tree : Performs resolver t (tree platform resolver t) (checks t) := by
  simp only [tree, checks, List.append_assoc]
  refine performs_front.bind fun _ _ _ _ => ?_
  refine performs_server.bind fun _ _ _ _ => ?_
  refine performs_time.bind fun _ _ _ _ => ?_
  refine performs_motd.bind fun _ _ _ _ => ?_
  refine performs_join.bind fun _ _ _ _ => ?_
  refine performs_lockout.bind fun _ _ _ _ => ?_
  refine performs_rcon.bind fun _ _ _ _ => ?_
  refine performs_advanced.bind fun _ _ _ _ => ?_
  exact performs_format.last

theorem perform_checks (platform : Platform) (resolver : HostResolver) (t : Table) :
    perform resolver t (checks t) [] =
      (fault? (build platform resolver t).result, (build platform resolver t).lookups) :=
  (performs_tree []).symm

/-- A check is the first of the checks of a table that fails: those before it pass, and `e` is what
it finds wrong. -/
structure FailsFirst (resolver : HostResolver) (t : Table) (before : List Check) (c : Check)
    (e : Raised ConfigError) : Prop where
  inOrder : ∃ after, checks t = before ++ c :: after
  passed : Passes resolver t [] before
  fails : c.fault? (resolver (asked t before)) t = some e

theorem FailsFirst.build_eq {before : List Check} {c : Check} {e : Raised ConfigError}
    (h : FailsFirst resolver t before c e) :
    (build platform resolver t).result = .error e ∧
      (build platform resolver t).lookups = asked t (before ++ [c]) := by
  obtain ⟨after, hchecks⟩ := h.inOrder
  have hperform := perform_checks platform resolver t
  rw [hchecks, perform_of_fails h.passed h.fails] at hperform
  obtain ⟨hresult, hlookups⟩ := Prod.mk.inj hperform
  refine ⟨?_, hlookups.symm⟩
  cases hbuild : (build platform resolver t).result with
  | ok c => rw [hbuild] at hresult; cases hresult
  | error e' => rw [hbuild] at hresult; rw [Option.some.inj hresult]

theorem Passes.build_eq (h : Passes resolver t [] (checks t)) :
    (∃ c, (build platform resolver t).result = .ok c) ∧
      (build platform resolver t).lookups = asked t (checks t) := by
  have hperform := perform_checks platform resolver t
  rw [perform_of_passes h] at hperform
  obtain ⟨hresult, hlookups⟩ := Prod.mk.inj hperform
  refine ⟨?_, hlookups.symm⟩
  cases hbuild : (build platform resolver t).result with
  | ok c => exact ⟨c, rfl⟩
  | error e => rw [hbuild] at hresult; cases hresult

/-- The checks of a table all pass, or there is a first one that fails. -/
theorem passes_or_failsFirst (resolver : HostResolver) (t : Table) :
    Passes resolver t [] (checks t) ∨ ∃ before c e, FailsFirst resolver t before c e := by
  rcases passes_or_fails resolver t [] (checks t) with
    hpass | ⟨before, c, after, e, hchecks, hpassed, hfails⟩
  · exact .inl hpass
  · exact .inr ⟨before, c, e, ⟨after, hchecks⟩, hpassed, hfails⟩

theorem passes_of_build_eq_ok {config : Config}
    (h : (build platform resolver t).result = .ok config) :
    Passes resolver t [] (checks t) := by
  rcases passes_or_failsFirst resolver t with hpass | ⟨before, c, e, hfirst⟩
  · exact hpass
  · rw [hfirst.build_eq.1] at h
    cases h

/-- A table is read with a foreign error exactly if the last name that is looked up is refused
without a text. -/
theorem result_build_eq_foreign_iff {raised : LookupError} :
    (build platform resolver t).result = .error (.foreign raised) ↔
      SocketAddress.RefusedLast resolver (build platform resolver t).lookups raised := by
  have hperform := @perform_eq_foreign_iff resolver t (checks t) [] raised
    (SocketAddress.not_refusedLast_nil resolver raised)
  rw [perform_checks platform] at hperform
  rw [← hperform]
  cases (build platform resolver t).result <;> simp [fault?]

/-- **The first error is the one that is reported.** A table is read with an error exactly if one of
its checks fails, and the error is what the first of them finds wrong. Then the names that have been
looked up are those of the checks up to this one, in their order: each is the host of an address
that is well-formed and no literal, and no check looks up more than one. If all checks pass, there
is a configuration, and the three addresses have been looked up. A foreign error counts as what the
check of its address finds wrong. -/
theorem first_fault (platform : Platform) (resolver : HostResolver) (t : Table) :
    (∀ e, (build platform resolver t).result = .error e ↔
      ∃ before c, FailsFirst resolver t before c e) ∧
    (∀ before c e, FailsFirst resolver t before c e →
      (build platform resolver t).lookups = asked t (before ++ [c])) ∧
    ((∃ c, (build platform resolver t).result = .ok c) ↔ Passes resolver t [] (checks t)) ∧
    (∀ c, (build platform resolver t).result = .ok c →
      (build platform resolver t).lookups = (Check.value .frontAddress).asks t ++
        (Check.value .serverAddress).asks t ++ (Check.value .forwardAddress).asks t) ∧
    (∀ c : Check, (c.asks t).length ≤ 1 ∧ ∀ host, host ∈ c.asks t ↔
      ∃ s text parts, c = .value s ∧ s.type = .address ∧
        s.given? t = some (.string text) ∧ Toml.FloatLiteral.isMarked text = false ∧
        SocketAddress.split text = .ok parts ∧
        SocketAddress.ofLiteral? parts.host parts.port = none ∧ host = parts.host) ∧
    ∀ text, table? text = some t → parse platform resolver text = build platform resolver t := by
  refine ⟨fun e => ⟨fun he => ?_, fun ⟨before, c, h⟩ => h.build_eq.1⟩,
    fun before c e h => h.build_eq.2, ⟨fun ⟨c, hc⟩ => ?_, fun h => h.build_eq.1⟩, fun c hc => ?_,
    fun c => ⟨length_asks_le t c, fun host => mem_asks_iff⟩, fun text h => ?_⟩
  · rcases passes_or_failsFirst resolver t with hpass | ⟨before, c, e', hfirst⟩
    · obtain ⟨c, hc⟩ := hpass.build_eq.1
      rw [hc] at he
      cases he
    · rw [hfirst.build_eq.1] at he
      obtain rfl := Except.error.inj he
      exact ⟨before, c, hfirst⟩
  · exact passes_of_build_eq_ok hc
  · rw [(passes_of_build_eq_ok hc).build_eq.2, asked_checks]
  · rw [parse, h]

/-- Faults in two sections, written in another order than they are checked in. -/
example :
    let t : Table :=
      [("config", .table .header [("version", .integer 1 false)]),
       ("server", .table .header [("address", .string "h:1"), ("command", .boolean true)]),
       ("public", .table .header [("address", .string "g:1")])]
    let outcome := build .other (fun _ _ => .addresses ["::1"]) t
    fault? outcome.result = some (.own (.wrongType "server.command" .string .boolean)) ∧
      outcome.lookups = ["g"] := by
  decide

end FromToml

end WakeConfig
