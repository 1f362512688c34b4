import WakeConfig.Proofs.Outcomes
import WakeConfig.Proofs.Trees

/-!
# Sections of a file

What is known of a section of a file once it has been read: its address is well formed, and each of
its numbers is in range and is that of the value under its key. A section that cannot be read is
refused for what it holds, never as no TOML. `ends_tree` puts the sections together.
-/

namespace WakeConfig.FromToml

open Toml (Value Table)

variable {t : Table} {max n : Nat}

/-! ## Values -/

/-- An error other than that the text is no TOML. -/
abbrev Reasoned (e : ConfigError) : Prop := ∀ text, e ≠ .notToml text

/-- An error other than that the text is no TOML, or a foreign one. -/
abbrev RaisedReasoned : Raised ConfigError → Prop := Raised.IfOwn Reasoned

theorem settles_string (name : String) (v : Value) :
    Settles (fun _ => True) Reasoned (string name v) := by
  unfold string
  split
  · split <;> simp [Settles, Reasoned]
  · simp [Settles, Reasoned]

theorem settles_boolean (name : String) (v : Value) :
    Settles (fun _ => True) Reasoned (boolean name v) := by
  unfold boolean
  split <;> simp [Settles, Reasoned]

theorem settles_unsigned (max : Nat) (name : String) (v : Value) :
    Settles (fun n : Nat => n ≤ max ∧ whole? v = some (n : Int)) Reasoned
      (unsigned max name v) := by
  unfold unsigned
  split
  · simp [Settles, Reasoned]
  · split
    · simp [Settles, Reasoned]
    · rename_i n hv hn
      have hnat : (n.toNat : Int) = n := Int.toNat_of_nonneg (by omega)
      exact ⟨by omega, by rw [hv, hnat]⟩

theorem settles_method (name : String) (v : Value) :
    Settles (fun _ => True) Reasoned (method name v) := by
  refine (settles_string name v).step fun text => ?_
  split <;> simp [Settles, Reasoned]

theorem settles_methodItems (name : String) (index : Nat) (items : List Value) :
    Settles (fun _ => True) Reasoned (methodItems name index items) := by
  induction items generalizing index with
  | nil => exact Settles.ok trivial
  | cons item items ih =>
    refine (settles_method _ item).step fun first => (ih (index + 1)).step fun rest => ?_
    exact Settles.ok trivial

theorem settles_methods (name : String) (v : Value) :
    Settles (fun _ => True) Reasoned (methods name v) := by
  unfold methods
  split
  · exact settles_methodItems name 0 _
  · exact settles_methodItems name 0 _
  · simp [Settles, Reasoned]

/-! ## Fields -/

/-- A number is that of the value under a key, if there is one. -/
def Spelled (t? : Option Table) (key : Table → String) (n : Nat) : Prop :=
  ∀ s ∈ t?, ∀ v ∈ s.get? (key s), whole? v = some (n : Int)

/-- A number of a section is in range, and it is that of the value under its key. -/
structure NumberOf (t? : Option Table) (key : Table → String) (max n : Nat) : Prop where
  inRange : n ≤ max
  spelled : Spelled t? key n

theorem numberOf_none (key : Table → String) (hn : n ≤ max) : NumberOf none key max n where
  inRange := hn
  spelled := by
    intro s hs
    cases hs

/-- A field meets a condition that its default meets and that every value under its key meets. -/
theorem settles_field {good : α → Prop} {bad : ConfigError → Prop} {place key : String}
    {fallback : α} {read : String → Value → Except ConfigError α}
    (hf : t.get? key = none → good fallback)
    (hr : ∀ name, ∀ v ∈ t.get? key, Settles good bad (read name v)) :
    Settles good bad (field t place key fallback read) := by
  unfold field
  split
  · rename_i h
    exact hf h
  · rename_i v h
    exact hr _ v h

/-- A field of which only the errors matter. -/
theorem settles_checks {place key : String} {fallback : α}
    {read : String → Value → Except ConfigError α}
    (hr : ∀ name v, Settles (fun _ => True) Reasoned (read name v)) :
    Settles (fun _ => True) Reasoned (field t place key fallback read) :=
  settles_field (fun _ => trivial) fun name v _ => hr name v

theorem settles_optionalString (name : String) (v : Value) :
    Settles (fun _ => True) Reasoned ((string name v).map some) :=
  (settles_string name v).map fun _ _ => trivial

theorem settles_number (place : String) (key : Table → String) {fallback : Nat}
    (hf : fallback ≤ max) :
    Settles (NumberOf (some t) key max) Reasoned
      (field t place (key t) fallback (unsigned max)) := by
  refine settles_field (fun hnone => ⟨hf, ?_⟩) fun name v hv => ?_
  · intro s hs w hw
    obtain rfl := Option.some.inj hs
    rw [hnone] at hw
    cases hw
  · refine (settles_unsigned max name v).mono fun n hn => ⟨hn.1, ?_⟩
    intro s hs w hw
    obtain rfl := Option.some.inj hs
    obtain rfl := Option.some.inj (hv.symm.trans hw)
    exact hn.2

theorem ends_resolved (resolver : HostResolver) (name text : String) :
    Ends SocketAddress.IsWellFormed RaisedReasoned (resolved resolver name text) := by
  unfold resolved
  refine Ends.step (Ends.lift fun _ => trivial) fun asked => ?_
  refine Ends.step (Ends.lift fun _ => trivial) fun _ => ?_
  split
  · rename_i a ha
    exact Ends.pure (SocketAddress.isWellFormed_of_resolve ha)
  · rename_i e _
    refine Ends.throw ?_
    cases e <;> simp [Raised.map, Raised.IfOwn, Reasoned]

theorem ends_address (resolver : HostResolver) (t : Table) (place key : String)
    {fallback : SocketAddress} (hf : fallback.IsWellFormed) :
    Ends SocketAddress.IsWellFormed RaisedReasoned (address resolver t place key fallback) := by
  unfold address
  split
  · exact Ends.pure hf
  · exact Ends.step (Ends.checked (settles_string _ _)) fun text => ends_resolved resolver _ text

theorem settles_subtable (t : Table) (key name : String) :
    Settles (· = sectionTable? t key) Reasoned (subtable (some t) key name) := by
  rw [subtable, sectionTable?, Option.bind_some]
  cases t.get? key with
  | none => rfl
  | some v =>
    cases v with
    | table origin entries => rfl
    | _ => simp [Settles, Reasoned]

/-- What is known of a section wherever it is read is known of the section under its key. -/
theorem settles_inSection {after : Option Table → α → Prop}
    {read : Option Table → Except ConfigError α}
    (h : ∀ t?, Settles (after t?) Reasoned (read t?)) (t : Table) (key name : String) :
    Settles (after (sectionTable? t key)) Reasoned (subtable (some t) key name >>= read) := by
  refine (settles_subtable t key name).bind fun t? ht => ?_
  subst ht
  exact h _

theorem ends_inSection {after : Option Table → α → Prop} {read : Option Table → Reading α}
    (h : ∀ t?, Ends (after t?) RaisedReasoned (read t?)) (t : Table) (key name : String) :
    Ends (after (sectionTable? t key)) RaisedReasoned
      (checked (subtable (some t) key name) >>= read) := by
  refine (Ends.checked (settles_subtable t key name)).bind fun t? ht => ?_
  subst ht
  exact h _

/-! ## Sections -/

theorem ends_front (resolver : HostResolver) (t? : Option Table) :
    Ends (fun c : FrontConfig => c.address.IsWellFormed ∧
      NumberOf t? (fun _ => "protocol") Default.maxU32 c.protocol) RaisedReasoned
      (front resolver t?) := by
  cases t? with
  | none => exact Ends.pure ⟨Default.isWellFormed_front, numberOf_none _ (by decide)⟩
  | some t =>
    refine (ends_address resolver t _ _ Default.isWellFormed_front).bind fun a ha => ?_
    refine Ends.step (Ends.checked (settles_checks settles_string)) fun version => ?_
    refine (Ends.checked (settles_number _ (fun _ => "protocol") (by decide))).bind fun n hn => ?_
    exact Ends.pure ⟨ha, hn⟩

theorem ends_server (resolver : HostResolver) (t? : Option Table) :
    Ends (fun c : ServerConfig => c.address.IsWellFormed ∧
      NumberOf t? (fun _ => "start_timeout") Default.maxU32 c.startTimeout ∧
      NumberOf t? (fun _ => "stop_timeout") Default.maxU32 c.stopTimeout) RaisedReasoned
      (server resolver t?) := by
  cases t? with
  | none => exact Ends.throw (by simp [Raised.IfOwn, Reasoned])
  | some t =>
    rw [server]
    split
    · exact Ends.throw (by simp [Raised.IfOwn, Reasoned])
    · refine Ends.step (Ends.checked (settles_checks settles_string)) fun directory => ?_
      refine Ends.step (Ends.checked (settles_string _ _)) fun command => ?_
      refine (ends_address resolver t _ _ (Default.isWellFormed_server "")).bind fun a ha => ?_
      -- five truth values stand before the two times, and four behind them
      iterate 5 refine Ends.step (Ends.checked (settles_checks settles_boolean)) fun _ => ?_
      refine (Ends.checked (settles_number _ (fun _ => "start_timeout") (by decide))).bind
        fun start hstart => ?_
      refine (Ends.checked (settles_number _ (fun _ => "stop_timeout") (by decide))).bind
        fun stop hstop => ?_
      iterate 4 refine Ends.step (Ends.checked (settles_checks settles_boolean)) fun _ => ?_
      exact Ends.pure ⟨ha, hstart, hstop⟩

theorem settles_time (t? : Option Table) :
    Settles (fun c : TimeConfig =>
      NumberOf t? (fun _ => "sleep_after") Default.maxU32 c.sleepAfter ∧
        NumberOf t? minOnlineKey Default.maxU32 c.minOnlineTime) Reasoned (time t?) := by
  cases t? with
  | none => exact ⟨numberOf_none _ (by decide), numberOf_none _ (by decide)⟩
  | some t =>
    refine (settles_number _ (fun _ => "sleep_after") (by decide)).bind fun sleep hsleep => ?_
    refine (settles_number _ minOnlineKey (by decide)).bind fun online honline => ?_
    exact Settles.ok ⟨hsleep, honline⟩

theorem settles_motd (t? : Option Table) : Settles (fun _ => True) Reasoned (motd t?) := by
  cases t? with
  | none => trivial
  | some t =>
    iterate 3 refine Settles.step (settles_checks settles_string) fun _ => ?_
    refine Settles.step (settles_checks settles_boolean) fun fromServer => ?_
    trivial

theorem settles_kick (t? : Option Table) : Settles (fun _ => True) Reasoned (kick t?) := by
  cases t? with
  | none => trivial
  | some t =>
    iterate 2 refine Settles.step (settles_checks settles_string) fun _ => ?_
    trivial

theorem settles_hold (t? : Option Table) :
    Settles (fun c : HoldConfig => NumberOf t? (fun _ => "timeout") Default.maxU32 c.timeout)
      Reasoned (hold t?) := by
  cases t? with
  | none => exact numberOf_none _ (by decide)
  | some t =>
    exact (settles_number _ (fun _ => "timeout") (by decide)).bind fun n hn => Settles.ok hn

theorem ends_forward (resolver : HostResolver) (t? : Option Table) :
    Ends (fun c : ForwardConfig => c.address.IsWellFormed) RaisedReasoned
      (forward resolver t?) := by
  cases t? with
  | none => exact Ends.pure Default.isWellFormed_forward
  | some t =>
    refine (ends_address resolver t _ _ Default.isWellFormed_forward).bind fun a ha => ?_
    refine Ends.step (Ends.checked (settles_checks settles_boolean)) fun proxy => ?_
    exact Ends.pure ha

theorem settles_lobby (t? : Option Table) :
    Settles (fun c : LobbyConfig => NumberOf t? (fun _ => "timeout") Default.maxU32 c.timeout)
      Reasoned (lobby t?) := by
  cases t? with
  | none => exact numberOf_none _ (by decide)
  | some t =>
    refine (settles_number _ (fun _ => "timeout") (by decide)).bind fun n hn => ?_
    refine Settles.step (settles_checks settles_string) fun message => ?_
    refine Settles.step (settles_checks settles_optionalString) fun sound => ?_
    exact Settles.ok hn

theorem ends_join (resolver : HostResolver) (t? : Option Table) :
    Ends (fun c : JoinConfig => c.forward.address.IsWellFormed ∧
      NumberOf (t?.bind (sectionTable? · "hold")) (fun _ => "timeout") Default.maxU32
        c.hold.timeout ∧
      NumberOf (t?.bind (sectionTable? · "lobby")) (fun _ => "timeout") Default.maxU32
        c.lobby.timeout) RaisedReasoned (join resolver t?) := by
  cases t? with
  | none =>
    exact Ends.pure ⟨Default.isWellFormed_forward, numberOf_none _ (by decide),
      numberOf_none _ (by decide)⟩
  | some t =>
    refine Ends.step (Ends.checked (settles_checks settles_methods)) fun methods => ?_
    refine Ends.step (Ends.checked (settles_inSection settles_kick t _ _)) fun kick => ?_
    refine (Ends.checked (settles_inSection settles_hold t _ _)).bind fun hold hhold => ?_
    refine (Ends.checked (settles_subtable t _ _)).bind fun forwardTable _ => ?_
    refine (ends_forward resolver forwardTable).bind fun forward hforward => ?_
    refine (Ends.checked (settles_inSection settles_lobby t _ _)).bind fun lobby hlobby => ?_
    exact Ends.pure ⟨hforward, hhold, hlobby⟩

theorem settles_lockout (t? : Option Table) : Settles (fun _ => True) Reasoned (lockout t?) := by
  cases t? with
  | none => trivial
  | some t =>
    refine Settles.step (settles_checks settles_boolean) fun enabled => ?_
    refine Settles.step (settles_checks settles_string) fun message => ?_
    trivial

theorem settles_rcon (platform : Platform) (t? : Option Table) :
    Settles (fun c : RconConfig => NumberOf t? (fun _ => "port") Default.maxU16 c.port)
      Reasoned (rcon platform t?) := by
  cases t? with
  | none => exact numberOf_none _ (by cases platform <;> decide)
  | some t =>
    refine Settles.step (settles_checks settles_boolean) fun enabled => ?_
    refine (settles_number _ (fun _ => "port")
      (by cases platform <;> decide)).bind fun port hport => ?_
    refine Settles.step (settles_checks settles_string) fun password => ?_
    iterate 2 refine Settles.step (settles_checks settles_boolean) fun _ => ?_
    exact Settles.ok hport

theorem settles_advanced (t? : Option Table) :
    Settles (fun _ => True) Reasoned (advanced t?) := by
  cases t? with
  | none => trivial
  | some t =>
    refine Settles.step (settles_checks settles_boolean) fun rewrites => ?_
    trivial

theorem settles_format (t? : Option Table) : Settles (fun _ => True) Reasoned (format t?) := by
  cases t? with
  | none => trivial
  | some t =>
    refine Settles.step (settles_checks settles_optionalString) fun version => ?_
    trivial

/-! ## The whole tree -/

/-- A tree that a table describes: it is well formed and names no file, and each of its numbers is
that of the value that the table gives to it. -/
structure Describes (t : Table) (c : Config) : Prop where
  wellFormed : c.IsWellFormed
  path : c.path = none
  protocol : Spelled (sectionTable? t "public") (fun _ => "protocol") c.front.protocol
  startTimeout :
    Spelled (sectionTable? t "server") (fun _ => "start_timeout") c.server.startTimeout
  stopTimeout : Spelled (sectionTable? t "server") (fun _ => "stop_timeout") c.server.stopTimeout
  sleepAfter : Spelled (sectionTable? t "time") (fun _ => "sleep_after") c.time.sleepAfter
  minOnlineTime : Spelled (sectionTable? t "time") minOnlineKey c.time.minOnlineTime
  holdTimeout : Spelled ((sectionTable? t "join").bind (sectionTable? · "hold"))
    (fun _ => "timeout") c.join.hold.timeout
  lobbyTimeout : Spelled ((sectionTable? t "join").bind (sectionTable? · "lobby"))
    (fun _ => "timeout") c.join.lobby.timeout
  rconPort : Spelled (sectionTable? t "rcon") (fun _ => "port") c.rcon.port

/-- The tree that is read from a table is one that the table describes. -/
theorem ends_tree (platform : Platform) (resolver : HostResolver) (t : Table) :
    Ends (Describes t) RaisedReasoned (tree platform resolver t) := by
  refine (ends_inSection (ends_front resolver) t _ _).bind fun front hfront => ?_
  refine (ends_inSection (ends_server resolver) t _ _).bind fun server hserver => ?_
  refine (Ends.checked (settles_inSection settles_time t _ _)).bind fun time htime => ?_
  refine Ends.step (Ends.checked (settles_inSection settles_motd t _ _)) fun motd => ?_
  refine (ends_inSection (ends_join resolver) t _ _).bind fun join hjoin => ?_
  refine Ends.step (Ends.checked (settles_inSection settles_lockout t _ _)) fun lockout => ?_
  refine (Ends.checked (settles_inSection (settles_rcon platform) t _ _)).bind fun rcon hrcon => ?_
  refine Ends.step (Ends.checked (settles_inSection settles_advanced t _ _)) fun advanced => ?_
  refine Ends.step (Ends.checked (settles_inSection settles_format t _ _)) fun format => ?_
  obtain ⟨hforward, hhold, hlobby⟩ := hjoin
  refine Ends.pure
    { wellFormed := ?_, path := rfl
      protocol := hfront.2.spelled
      startTimeout := hserver.2.1.spelled, stopTimeout := hserver.2.2.spelled
      sleepAfter := htime.1.spelled, minOnlineTime := htime.2.spelled
      holdTimeout := hhold.spelled, lobbyTimeout := hlobby.spelled
      rconPort := hrcon.spelled }
  exact
    { frontAddress := hfront.1, protocol := hfront.2.inRange
      serverAddress := hserver.1
      startTimeout := hserver.2.1.inRange, stopTimeout := hserver.2.2.inRange
      sleepAfter := htime.1.inRange, minOnlineTime := htime.2.inRange
      forwardAddress := hforward, holdTimeout := hhold.inRange, lobbyTimeout := hlobby.inRange
      rconPort := hrcon.inRange }

/-- The tree of a table is never refused as no TOML. -/
theorem build_ne_notToml (platform : Platform) (resolver : HostResolver) (t : Table)
    (text : String) : (build platform resolver t).result ≠ .error (.own (.notToml text)) :=
  fun h => (ends_tree platform resolver t []).reason h text rfl

end WakeConfig.FromToml
