import WakeConfig.Config.Default
import WakeConfig.Config.Layout
import WakeConfig.Proofs.Resolution

/-!
# Complete trees

A tree is complete if every section and field is there, the addresses are literals with a port, and
the numbers are in their range. `Json.IsTree` states this of a tree as a value, and
`Config.IsWellFormed` of a configuration, whose value is then complete. Addresses are well formed
however they come about.
-/

namespace WakeConfig

/-! ## Values of a tree -/

/-- The value under a path of member names. -/
def Json.at? : List String → Json → Option Json
  | [], v => some v
  | name :: names, v => (v.member? name).bind (Json.at? names)

/-- The value of an address. -/
def SocketAddress.toJson (a : SocketAddress) : Json := (a.part false).toJson

/-- An address is well formed: its host is a literal of its family, and its port is a port. -/
structure SocketAddress.IsWellFormed (a : SocketAddress) : Prop where
  family : IpAddress.family? a.host = some a.family
  port : a.port ≤ SocketAddress.maxPort

instance : DecidablePred SocketAddress.IsWellFormed := fun a =>
  decidable_of_iff (IpAddress.family? a.host = some a.family ∧ a.port ≤ SocketAddress.maxPort)
    ⟨fun h => ⟨h.1, h.2⟩, fun h => ⟨h.1, h.2⟩⟩

namespace Layout

/-- The sections. -/
def sections : List (List String) :=
  [ ["public"], ["server"], ["time"], ["motd"], ["join"], ["join", "kick"], ["join", "hold"],
    ["join", "forward"], ["join", "lobby"], ["lockout"], ["rcon"], ["advanced"], ["config"] ]

/-- The address fields. -/
def addresses : List (List String) :=
  [["public", "address"], ["server", "address"], ["join", "forward", "address"]]

/-- The number fields, each with its largest value. -/
def numbers : List (List String × Nat) :=
  [ (["public", "protocol"], Default.maxU32), (["server", "start_timeout"], Default.maxU32),
    (["server", "stop_timeout"], Default.maxU32), (["time", "sleep_after"], Default.maxU32),
    (["time", "min_online_time"], Default.maxU32), (["join", "hold", "timeout"], Default.maxU32),
    (["join", "lobby", "timeout"], Default.maxU32), (["rcon", "port"], Default.maxU16) ]

/-- The fields of texts, truth values and lists that every tree has. -/
def others : List (List String) :=
  [ ["public", "version"], ["server", "directory"], ["server", "command"],
    ["server", "freeze_process"], ["server", "wake_on_start"], ["server", "wake_on_crash"],
    ["server", "probe_on_start"], ["server", "forge"], ["server", "wake_whitelist"],
    ["server", "block_banned_ips"], ["server", "drop_banned_ips"], ["server", "send_proxy_v2"],
    ["motd", "sleeping"], ["motd", "starting"], ["motd", "stopping"], ["motd", "from_server"],
    ["join", "methods"], ["join", "kick", "starting"], ["join", "kick", "stopping"],
    ["join", "forward", "send_proxy_v2"], ["join", "lobby", "message"], ["lockout", "enabled"],
    ["lockout", "message"], ["rcon", "enabled"], ["rcon", "password"],
    ["rcon", "randomize_password"], ["rcon", "send_proxy_v2"],
    ["advanced", "rewrite_server_properties"] ]

/-- The sections and fields that every tree has. -/
def required : List (List String) := sections ++ addresses ++ numbers.map Prod.fst ++ others

end Layout

/-- A value is a complete tree whose addresses, numbers and join methods are what they must be. -/
structure Json.IsTree (v : Json) : Prop where
  present : ∀ keys ∈ Layout.required, (v.at? keys).isSome
  address : ∀ keys ∈ Layout.addresses,
    ∃ a : SocketAddress, a.IsWellFormed ∧ v.at? keys = some a.toJson
  number : ∀ f ∈ Layout.numbers, ∃ n : Nat, n ≤ f.2 ∧ v.at? f.1 = some (.ofNat n)
  methods : ∃ names : List String, v.at? ["join", "methods"] = some (.array (names.map .string)) ∧
    ∀ name ∈ names, name ∈ JoinMethod.all.map JoinMethod.name

/-! ## The layout of a configuration -/

/-- A configuration whose addresses and numbers are what they must be. -/
structure Config.IsWellFormed (c : Config) : Prop where
  frontAddress : c.front.address.IsWellFormed
  serverAddress : c.server.address.IsWellFormed
  forwardAddress : c.join.forward.address.IsWellFormed
  protocol : c.front.protocol ≤ Default.maxU32
  startTimeout : c.server.startTimeout ≤ Default.maxU32
  stopTimeout : c.server.stopTimeout ≤ Default.maxU32
  sleepAfter : c.time.sleepAfter ≤ Default.maxU32
  minOnlineTime : c.time.minOnlineTime ≤ Default.maxU32
  holdTimeout : c.join.hold.timeout ≤ Default.maxU32
  lobbyTimeout : c.join.lobby.timeout ≤ Default.maxU32
  rconPort : c.rcon.port ≤ Default.maxU16

theorem JoinMethod.name_mem (m : JoinMethod) : m.name ∈ JoinMethod.all.map JoinMethod.name := by
  cases m <;> decide

theorem Part.itemsToJson_texts (names : List String) :
    Part.itemsToJson (names.map Part.text) = names.map Json.string := by
  induction names with
  | nil => rfl
  | cons name rest ih =>
    rw [List.map_cons, Part.itemsToJson, ih]
    rfl

/-- The tree of a well-formed configuration is a complete tree. -/
theorem Config.IsWellFormed.isTree {c : Config} (h : c.IsWellFormed) : c.toJson.IsTree where
  present := by
    have : Layout.required.all (fun keys => (c.toJson.at? keys).isSome) = true := rfl
    exact List.all_eq_true.1 this
  address := by
    intro keys hk
    simp only [Layout.addresses, List.mem_cons, List.not_mem_nil, or_false] at hk
    rcases hk with rfl | rfl | rfl
    · exact ⟨_, h.frontAddress, rfl⟩
    · exact ⟨_, h.serverAddress, rfl⟩
    · exact ⟨_, h.forwardAddress, rfl⟩
  number := by
    intro f hf
    simp only [Layout.numbers, List.mem_cons, List.not_mem_nil, or_false] at hf
    rcases hf with rfl | rfl | rfl | rfl | rfl | rfl | rfl | rfl
    · exact ⟨_, h.protocol, rfl⟩
    · exact ⟨_, h.startTimeout, rfl⟩
    · exact ⟨_, h.stopTimeout, rfl⟩
    · exact ⟨_, h.sleepAfter, rfl⟩
    · exact ⟨_, h.minOnlineTime, rfl⟩
    · exact ⟨_, h.holdTimeout, rfl⟩
    · exact ⟨_, h.lobbyTimeout, rfl⟩
    · exact ⟨_, h.rconPort, rfl⟩
  methods := by
    refine ⟨c.join.methods.map JoinMethod.name, ?_, ?_⟩
    · rw [← Part.itemsToJson_texts, List.map_map]
      rfl
    · intro name hn
      obtain ⟨m, -, rfl⟩ := List.mem_map.1 hn
      exact m.name_mem

/-- A configuration names a file exactly where its path is one. -/
theorem Config.at?_path (c : Config) : c.toJson.at? ["path"] = c.path.map Json.string := by
  rcases c with ⟨path, -⟩
  cases path <;> rfl

/-! ## Addresses -/

namespace SocketAddress

/-- A text is only split at a port in range. -/
theorem port_le_of_split {address : String} {parts : HostPort} (h : split address = .ok parts) :
    parts.port ≤ maxPort := by
  obtain ⟨form, digits, hwrites⟩ := split_eq_ok_iff.1 h
  exact hwrites.port.le

theorem isWellFormed_of_parse {address : String} {a : SocketAddress}
    (h : parse address = .ok a) : a.IsWellFormed := by
  obtain ⟨hsplit, hfamily⟩ := parse_eq_ok_iff.1 h
  exact ⟨hfamily, port_le_of_split hsplit⟩

/-- Of what a resolver answers only a literal becomes an address. -/
theorem Answered.isWellFormed {address : String} {parts : HostPort} {answer : HostAnswer}
    {a : SocketAddress} (h : Answered address parts answer (.ok a)) (hp : parts.port ≤ maxPort) :
    a.IsWellFormed := by
  cases h with
  | first hbefore hfamily => exact ⟨hfamily, hp⟩

theorem Resolves.isWellFormed {answer : String → HostAnswer} {address : String} {r : Resolution}
    {a : SocketAddress} (h : Resolves answer address r) (ha : r.outcome = .ok a) :
    a.IsWellFormed := by
  cases h with
  | literal hparse =>
    cases ha
    exact isWellFormed_of_parse hparse
  | malformed hsplit => cases ha
  | lookedUp hsplit hparse houtcome =>
    cases ha
    exact houtcome.isWellFormed (port_le_of_split hsplit)

/-- Whatever a resolver answers, an address that is resolved is well formed. -/
theorem isWellFormed_of_resolve {answer : String → HostAnswer} {address : String}
    {a : SocketAddress} (h : (resolve answer address).outcome = .ok a) : a.IsWellFormed :=
  (resolve_eq_iff.1 rfl).isWellFormed h

end SocketAddress

namespace Default

theorem isWellFormed_front : front.address.IsWellFormed :=
  SocketAddress.isWellFormed_of_parse parse_frontAddress

theorem isWellFormed_server (command : String) : (server command).address.IsWellFormed :=
  SocketAddress.isWellFormed_of_parse (parse_serverAddress command)

theorem isWellFormed_forward : forward.address.IsWellFormed :=
  SocketAddress.isWellFormed_of_parse parse_forwardAddress

end Default

end WakeConfig
