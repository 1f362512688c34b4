import WakeConfig.Proofs.Outcomes
import WakeConfig.Proofs.Toml.Views

/-!
# What the sections read

The sections of a configuration are read by their keys. None of these keys is one that marking can
change, so the tree is the same whether it is built of a table or of what the table shows.
-/

namespace WakeConfig.FromToml

open Toml (Value Table mayChange)

/-- Marking can change none of the keys under which the sections look. -/
theorem mayChange_known :
    mayChange "public" = false ∧ mayChange "server" = false ∧ mayChange "time" = false ∧
    mayChange "motd" = false ∧ mayChange "join" = false ∧ mayChange "lockout" = false ∧
    mayChange "rcon" = false ∧ mayChange "advanced" = false ∧ mayChange "config" = false ∧
    mayChange "address" = false ∧ mayChange "version" = false ∧ mayChange "protocol" = false ∧
    mayChange "command" = false ∧ mayChange "directory" = false ∧
    mayChange "freeze_process" = false ∧ mayChange "wake_on_start" = false ∧
    mayChange "wake_on_crash" = false ∧ mayChange "probe_on_start" = false ∧
    mayChange "forge" = false ∧ mayChange "start_timeout" = false ∧
    mayChange "stop_timeout" = false ∧ mayChange "wake_whitelist" = false ∧
    mayChange "block_banned_ips" = false ∧ mayChange "drop_banned_ips" = false ∧
    mayChange "send_proxy_v2" = false ∧ mayChange "sleep_after" = false ∧
    mayChange "min_online_time" = false ∧ mayChange "minimum_online_time" = false ∧
    mayChange "sleeping" = false ∧ mayChange "starting" = false ∧ mayChange "stopping" = false ∧
    mayChange "from_server" = false ∧ mayChange "methods" = false ∧ mayChange "kick" = false ∧
    mayChange "hold" = false ∧ mayChange "forward" = false ∧ mayChange "lobby" = false ∧
    mayChange "timeout" = false ∧ mayChange "message" = false ∧ mayChange "ready_sound" = false ∧
    mayChange "enabled" = false ∧ mayChange "port" = false ∧ mayChange "password" = false ∧
    mayChange "randomize_password" = false ∧ mayChange "rewrite_server_properties" = false := by
  decide +kernel

variable {key : String} {t : Table}

theorem get?_shown (h : mayChange key = false) (t : Table) :
    t.shown.get? key = (t.get? key).map Value.shown :=
  Toml.get?_view (by simp [h]) t

/-! ## Values -/

theorem string_shown (field : String) (v : Value) : string field v.shown = string field v := by
  cases v <;> simp [string, Value.found]

theorem boolean_shown (field : String) (v : Value) : boolean field v.shown = boolean field v := by
  cases v <;> simp [boolean, Value.found]

theorem unsigned_shown (max : Nat) (field : String) (v : Value) :
    unsigned max field v.shown = unsigned max field v := by
  cases v <;> simp [unsigned, whole?, Value.found]

theorem method_shown (field : String) (v : Value) : method field v.shown = method field v := by
  rw [method, method, string_shown]

theorem methodItems_shown (field : String) (index : Nat) (items : List Value) :
    methodItems field index (items.map Value.shown) = methodItems field index items := by
  induction items generalizing index with
  | nil => rfl
  | cons item items ih => rw [List.map_cons, methodItems, methodItems, method_shown, ih]

theorem methods_shown (field : String) (v : Value) : methods field v.shown = methods field v := by
  cases v with
  | array items => rw [Value.shown_array, methods, methods, methodItems_shown]
  | tables elements =>
    have h := methodItems_shown field 0 (elements.map fun entries => .table .passage entries)
    simpa [methods, Function.comp_def] using h
  | _ => simp [methods, Value.found]

/-! ## Sections -/

theorem field_shown {place : String} {fallback : α} {read : String → Value → Except ConfigError α}
    (hk : mayChange key = false) (hr : ∀ name v, read name v.shown = read name v) (t : Table) :
    field t.shown place key fallback read = field t place key fallback read := by
  rw [field, field, get?_shown hk]
  cases t.get? key with
  | none => rfl
  | some v => exact hr _ v

theorem optionalString_shown {place : String} {fallback : Option String}
    (hk : mayChange key = false) (t : Table) :
    field t.shown place key fallback (fun name v => (string name v).map some)
      = field t place key fallback fun name v => (string name v).map some :=
  field_shown hk (fun name v => by rw [string_shown]) t

theorem subtable_shown {name : String} (hk : mayChange key = false) (t : Table) :
    subtable (some t.shown) key name
      = (subtable (some t) key name).map (Option.map Table.shown) := by
  rw [subtable, subtable, Option.bind_some, Option.bind_some, get?_shown hk]
  cases t.get? key with
  | none => rfl
  | some v => cases v <;> simp [Value.found] <;> rfl

theorem address_shown {place : String} {fallback : SocketAddress} (resolver : HostResolver)
    (hk : mayChange key = false) (t : Table) :
    address resolver t.shown place key fallback = address resolver t place key fallback := by
  rw [address, address, get?_shown hk]
  cases t.get? key with
  | none => rfl
  | some v => simp only [Option.map_some, string_shown]

theorem front_shown (resolver : HostResolver) (t? : Option Table) :
    front resolver (t?.map Table.shown) = front resolver t? := by
  cases t? with
  | none => rfl
  | some t =>
    simp only [Option.map_some, front, address_shown, mayChange_known, field_shown _ string_shown,
      field_shown _ (unsigned_shown _)]

theorem server_shown (resolver : HostResolver) (t? : Option Table) :
    server resolver (t?.map Table.shown) = server resolver t? := by
  cases t? with
  | none => rfl
  | some t =>
    rw [Option.map_some, server, server, get?_shown (by simp only [mayChange_known])]
    cases t.get? "command" with
    | none => rfl
    | some command =>
      simp only [Option.map_some, string_shown, address_shown, mayChange_known,
        field_shown _ string_shown, field_shown _ boolean_shown, field_shown _ (unsigned_shown _)]

theorem minOnlineKey_shown (t : Table) : minOnlineKey t.shown = minOnlineKey t := by
  rw [minOnlineKey, minOnlineKey, get?_shown (by simp only [mayChange_known]), Option.isSome_map]

theorem time_shown (t? : Option Table) : time (t?.map Table.shown) = time t? := by
  cases t? with
  | none => rfl
  | some t =>
    have hkey : mayChange (minOnlineKey t) = false := by
      unfold minOnlineKey
      split <;> simp only [mayChange_known]
    simp only [Option.map_some, time, minOnlineKey_shown, hkey, mayChange_known,
      field_shown _ (unsigned_shown _)]

theorem motd_shown (t? : Option Table) : motd (t?.map Table.shown) = motd t? := by
  cases t? with
  | none => rfl
  | some t =>
    simp only [Option.map_some, motd, mayChange_known, field_shown _ string_shown,
      field_shown _ boolean_shown]

theorem kick_shown (t? : Option Table) : kick (t?.map Table.shown) = kick t? := by
  cases t? with
  | none => rfl
  | some t => simp only [Option.map_some, kick, mayChange_known, field_shown _ string_shown]

theorem hold_shown (t? : Option Table) : hold (t?.map Table.shown) = hold t? := by
  cases t? with
  | none => rfl
  | some t => simp only [Option.map_some, hold, mayChange_known, field_shown _ (unsigned_shown _)]

theorem forward_shown (resolver : HostResolver) (t? : Option Table) :
    forward resolver (t?.map Table.shown) = forward resolver t? := by
  cases t? with
  | none => rfl
  | some t =>
    simp only [Option.map_some, forward, address_shown, mayChange_known,
      field_shown _ boolean_shown]

theorem lobby_shown (t? : Option Table) : lobby (t?.map Table.shown) = lobby t? := by
  cases t? with
  | none => rfl
  | some t =>
    simp only [Option.map_some, lobby, mayChange_known, field_shown _ string_shown,
      field_shown _ (unsigned_shown _), optionalString_shown]

theorem lockout_shown (t? : Option Table) : lockout (t?.map Table.shown) = lockout t? := by
  cases t? with
  | none => rfl
  | some t =>
    simp only [Option.map_some, lockout, mayChange_known, field_shown _ string_shown,
      field_shown _ boolean_shown]

theorem rcon_shown (platform : Platform) (t? : Option Table) :
    rcon platform (t?.map Table.shown) = rcon platform t? := by
  cases t? with
  | none => rfl
  | some t =>
    simp only [Option.map_some, rcon, mayChange_known, field_shown _ string_shown,
      field_shown _ boolean_shown, field_shown _ (unsigned_shown _)]

theorem advanced_shown (t? : Option Table) : advanced (t?.map Table.shown) = advanced t? := by
  cases t? with
  | none => rfl
  | some t => simp only [Option.map_some, advanced, mayChange_known, field_shown _ boolean_shown]

theorem format_shown (t? : Option Table) : format (t?.map Table.shown) = format t? := by
  cases t? with
  | none => rfl
  | some t => simp only [Option.map_some, format, mayChange_known, optionalString_shown]

theorem map_bind {x : Except ConfigError α} (f : α → β) (g : β → Except ConfigError γ) :
    (x.map f >>= g) = x >>= fun a => g (f a) := by
  cases x <;> rfl

theorem checked_map_bind {x : Except ConfigError α} (f : α → β) (g : β → Reading γ) :
    (checked (x.map f) >>= g) = checked x >>= fun a => g (f a) := by
  cases x <;> rfl

theorem join_shown (resolver : HostResolver) (t? : Option Table) :
    join resolver (t?.map Table.shown) = join resolver t? := by
  cases t? with
  | none => rfl
  | some t =>
    simp only [Option.map_some, join, mayChange_known, field_shown _ methods_shown, subtable_shown,
      map_bind, checked_map_bind, kick_shown, hold_shown, forward_shown, lobby_shown]

/-! ## The whole tree -/

theorem tree_shown (platform : Platform) (resolver : HostResolver) (t : Table) :
    tree platform resolver t.shown = tree platform resolver t := by
  simp only [tree, mayChange_known, subtable_shown, map_bind, checked_map_bind, front_shown,
    server_shown, time_shown, motd_shown, join_shown, lockout_shown, rcon_shown, advanced_shown,
    format_shown]

theorem sectionTable?_shown (hk : mayChange key = false) (t : Table) :
    sectionTable? t.shown key = (sectionTable? t key).map Table.shown := by
  rw [sectionTable?, sectionTable?, get?_shown hk]
  cases t.get? key with
  | none => rfl
  | some v => cases v <;> simp

theorem lacks_shown (hk : mayChange key = false) (t? : Option Table) :
    lacks (t?.map Table.shown) key = lacks t? key := by
  cases t? with
  | none => rfl
  | some t => simp [lacks, get?_shown hk]

theorem common_shown (t : Table) : common t.shown = common t := by
  have hforward : ∀ j : Option Table,
      ((j.map Table.shown).bind fun j => sectionTable? j "forward")
        = (j.bind fun j => sectionTable? j "forward").map Table.shown := by
    intro j
    cases j with
    | none => rfl
    | some j => exact sectionTable?_shown (by simp only [mayChange_known]) j
  simp only [common, mayChange_known, sectionTable?_shown, lacks_shown, hforward,
    Option.isNone_map]

/-- A tree is built of what a table shows. -/
theorem build_shown (platform : Platform) (resolver : HostResolver) (t : Table) :
    build platform resolver t.shown = build platform resolver t := by
  rw [build, build, tree_shown, common_shown]

end WakeConfig.FromToml
