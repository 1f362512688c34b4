import WakeConfig.Proofs.AddressText
import WakeConfig.Proofs.Json.Reading
import WakeConfig.Proofs.Loaded

/-!
# The written form of a tree

What is shown of a tree is the tree itself but for its addresses, each of which is a text that is
read as that address. So the text of a tree gives it back: `render_lossless`.
-/

namespace WakeConfig

/-! ## Values in a value -/

namespace Json

/-- A value stands in another if it is that value itself or stands in one of its entries. -/
inductive IsIn : Json → Json → Prop
  | self (v : Json) : IsIn v v
  | item {w item : Json} {items : List Json} : item ∈ items → IsIn w item → IsIn w (array items)
  | member {w v : Json} {name : String} {members : List (String × Json)} :
      (name, v) ∈ members → IsIn w v → IsIn w (object members)

/-- Puts a value in the place of that of a member. -/
def putMember (name : String) (w : Json) : List (String × Json) → List (String × Json)
  | [] => []
  | (n, v) :: rest => if n = name then (n, w) :: rest else (n, v) :: putMember name w rest

/-- Puts a value in the place of the one under a path of member names. -/
def putAt : List String → Json → Json → Json
  | [], _, w => w
  | name :: names, object members, w =>
    match members.lookup name with
    | some v => object (putMember name (putAt names v w) members)
    | none => object members
  | _ :: _, v, _ => v

/-- Reads the text under a path of member names as an address and puts that in its place. -/
def readAddressAt? (v : Json) (keys : List String) : Option Json :=
  match v.at? keys with
  | some (string text) =>
    match SocketAddress.parse text with
    | .ok a => some (v.putAt keys a.toJson)
    | .error _ => none
  | _ => none

/-- Reads the address fields of a tree as addresses. -/
def readAddresses? (v : Json) : Option Json := Layout.addresses.foldlM readAddressAt? v

/-! ## Values without addresses -/

mutual
/-- Whether no value in a value is an address. -/
def addressFree : Json → Bool
  | array items => itemsAddressFree items
  | object members => (addressText? (object members)).isNone && membersAddressFree members
  | _ => true

/-- Whether no value in some items is an address. -/
def itemsAddressFree : List Json → Bool
  | [] => true
  | item :: rest => addressFree item && itemsAddressFree rest

/-- Whether no value in some members is an address. -/
def membersAddressFree : List (String × Json) → Bool
  | [] => true
  | (_, v) :: rest => addressFree v && membersAddressFree rest
end

theorem itemsAddressFree_iff {items : List Json} :
    itemsAddressFree items = true ↔ ∀ v ∈ items, v.addressFree = true := by
  induction items with
  | nil => simp [itemsAddressFree]
  | cons item items ih => rw [itemsAddressFree, Bool.and_eq_true, ih, List.forall_mem_cons]

theorem membersAddressFree_iff {members : List (String × Json)} :
    membersAddressFree members = true ↔ ∀ m ∈ members, m.2.addressFree = true := by
  induction members with
  | nil => simp [membersAddressFree]
  | cons member members ih =>
    rw [membersAddressFree, Bool.and_eq_true, ih, List.forall_mem_cons]

theorem addressFree_object {members : List (String × Json)}
    (hself : (object members).addressText? = none) (h : ∀ m ∈ members, m.2.addressFree = true) :
    (object members).addressFree = true := by
  rw [addressFree, hself, membersAddressFree_iff.2 h]
  rfl

/-- In a value without addresses nothing is an address. -/
theorem addressText?_of_isIn {v w : Json} (hw : w.IsIn v) (h : v.addressFree = true) :
    w.addressText? = none := by
  induction hw with
  | self =>
    cases w with
    | object members =>
      rw [addressFree, Bool.and_eq_true] at h
      exact Option.isNone_iff_eq_none.1 h.1
    | _ => rfl
  | item hitem _ ih =>
    rw [addressFree] at h
    exact ih (itemsAddressFree_iff.1 h _ hitem)
  | member hmember _ ih =>
    rw [addressFree, Bool.and_eq_true] at h
    exact ih (membersAddressFree_iff.1 h.2 _ hmember)

/-! ## The places of objects -/

mutual
/-- The paths of member names that lead to an object. -/
def objectKeys : Json → List (List String)
  | object members => [] :: membersObjectKeys members
  | _ => []

/-- The paths of member names that lead from some members to an object. -/
def membersObjectKeys : List (String × Json) → List (List String)
  | [] => []
  | (name, v) :: rest => (objectKeys v).map (name :: ·) ++ membersObjectKeys rest
end

theorem mem_membersObjectKeys {v : Json} {name : String} {keys : List String}
    {members : List (String × Json)} (hv : (name, v) ∈ members) (h : keys ∈ v.objectKeys) :
    name :: keys ∈ membersObjectKeys members := by
  induction members with
  | nil => cases hv
  | cons member members ih =>
    rw [membersObjectKeys]
    rcases List.mem_cons.1 hv with rfl | hv
    · exact List.mem_append_left _ (List.mem_map_of_mem h)
    · exact List.mem_append_right _ (ih hv)

theorem mem_objectKeys {v : Json} {keys : List String} {members : List (String × Json)}
    (h : v.at? keys = some (object members)) : keys ∈ v.objectKeys := by
  induction keys generalizing v with
  | nil =>
    obtain rfl : v = object members := Option.some.inj h
    rw [objectKeys]
    exact List.mem_cons_self
  | cons name keys ih =>
    cases v with
    | object entries =>
      obtain ⟨v, hv, hat⟩ := Option.bind_eq_some_iff.1 h
      obtain ⟨before, after, rfl, -⟩ := List.lookup_eq_some_iff.1 hv
      rw [objectKeys]
      exact List.mem_cons_of_mem _ (mem_membersObjectKeys (by simp) (ih hat))
    | _ => cases h

end Json

/-! ## What is shown of a value -/

namespace Json

theorem withAddressTexts_of_addressText? {v : Json} {text : String}
    (h : v.addressText? = some text) : v.withAddressTexts = .string text := by
  unfold withAddressTexts
  split
  · rename_i text' _ htext
    rw [h] at htext
    rw [Option.some.inj htext]
  all_goals
    rename_i hnone
    rw [h] at hnone
    cases hnone

theorem withAddressTexts_object {members : List (String × Json)}
    (h : (object members).addressText? = none) :
    (object members).withAddressTexts = object (membersWithAddressTexts members) := by
  rw [withAddressTexts.eq_def, h]

mutual
/-- A value without addresses is shown as it is. -/
theorem withAddressTexts_of_addressFree : (v : Json) → v.addressFree = true →
    v.withAddressTexts = v
  | null, _ => rfl
  | bool _, _ => rfl
  | number _, _ => rfl
  | string _, _ => rfl
  | array items, h => by
    rw [addressFree] at h
    show array (itemsWithAddressTexts items) = _
    rw [itemsWithAddressTexts_of_addressFree items h]
  | object members, h => by
    rw [addressFree, Bool.and_eq_true] at h
    rw [withAddressTexts_object (Option.isNone_iff_eq_none.1 h.1),
      membersWithAddressTexts_of_addressFree members h.2]

/-- Items without addresses are shown as they are. -/
theorem itemsWithAddressTexts_of_addressFree : (items : List Json) →
    itemsAddressFree items = true → itemsWithAddressTexts items = items
  | [], _ => rfl
  | item :: items, h => by
    rw [itemsAddressFree, Bool.and_eq_true] at h
    rw [itemsWithAddressTexts, withAddressTexts_of_addressFree item h.1,
      itemsWithAddressTexts_of_addressFree items h.2]

/-- Members without addresses are shown as they are. -/
theorem membersWithAddressTexts_of_addressFree : (members : List (String × Json)) →
    membersAddressFree members = true → membersWithAddressTexts members = members
  | [], _ => rfl
  | (name, v) :: members, h => by
    rw [membersAddressFree, Bool.and_eq_true] at h
    rw [membersWithAddressTexts, withAddressTexts_of_addressFree v h.1,
      membersWithAddressTexts_of_addressFree members h.2]
end

/-- If one member is not shown as it is, the members are shown with another value for it. -/
theorem membersWithAddressTexts_eq_putMember {name : String} {v w : Json}
    {members : List (String × Json)} (hv : members.lookup name = some v)
    (hw : v.withAddressTexts = w)
    (hothers : membersAddressFree (putMember name null members) = true) :
    membersWithAddressTexts members = putMember name w members := by
  induction members with
  | nil => cases hv
  | cons member members ih =>
    obtain ⟨n, x⟩ := member
    rw [putMember] at hothers ⊢
    rw [membersWithAddressTexts]
    by_cases hn : n = name
    · subst hn
      rw [if_pos rfl, membersAddressFree, Bool.and_eq_true] at hothers
      rw [if_pos rfl, membersWithAddressTexts_of_addressFree members hothers.2]
      obtain rfl : x = v := by simpa using hv
      rw [hw]
    · rw [if_neg hn, membersAddressFree, Bool.and_eq_true] at hothers
      rw [if_neg hn, withAddressTexts_of_addressFree x hothers.1, ih ?_ hothers.2]
      rw [List.lookup_cons] at hv
      have : (name == n) = false := beq_eq_false_iff_ne.2 (Ne.symm hn)
      simpa [this] using hv

/-- An object of which one member is not shown as it is. -/
theorem withAddressTexts_eq_putAt {name : String} {keys : List String} {v w : Json}
    {members : List (String × Json)} (hself : (object members).addressText? = none)
    (hv : members.lookup name = some v) (hw : v.withAddressTexts = v.putAt keys w)
    (hothers : membersAddressFree (putMember name null members) = true) :
    (object members).withAddressTexts = (object members).putAt (name :: keys) w := by
  rw [withAddressTexts_object hself, membersWithAddressTexts_eq_putMember hv hw hothers, putAt, hv]

end Json

/-! ## What is shown of a configuration -/

theorem SocketAddress.withAddressTexts_toJson {a : SocketAddress} (h : a.port ≤ maxPort) :
    a.toJson.withAddressTexts = .string a.format :=
  Json.withAddressTexts_of_addressText? (addressText?_toJson h)

theorem FrontConfig.withAddressTexts_part {c : FrontConfig} (h : c.address.IsWellFormed) :
    (c.part .none).toJson.withAddressTexts
      = (c.part .none).toJson.putAt ["address"] (.string c.address.format) :=
  Json.withAddressTexts_eq_putAt rfl rfl (SocketAddress.withAddressTexts_toJson h.port) rfl

theorem ServerConfig.withAddressTexts_part {c : ServerConfig} (h : c.address.IsWellFormed) :
    (c.part .none).toJson.withAddressTexts
      = (c.part .none).toJson.putAt ["address"] (.string c.address.format) :=
  Json.withAddressTexts_eq_putAt rfl rfl (SocketAddress.withAddressTexts_toJson h.port) rfl

theorem ForwardConfig.withAddressTexts_part {c : ForwardConfig} (h : c.address.IsWellFormed) :
    (c.part .none).toJson.withAddressTexts
      = (c.part .none).toJson.putAt ["address"] (.string c.address.format) :=
  Json.withAddressTexts_eq_putAt rfl rfl (SocketAddress.withAddressTexts_toJson h.port) rfl

theorem JoinConfig.addressFree_methods (c : JoinConfig) :
    (Json.array (Part.itemsToJson (c.methods.map fun m => Part.text m.name))).addressFree
      = true := by
  have hnames := Part.itemsToJson_texts (c.methods.map JoinMethod.name)
  rw [List.map_map] at hnames
  show Json.itemsAddressFree (Part.itemsToJson (c.methods.map (Part.text ∘ JoinMethod.name))) = true
  rw [hnames, Json.itemsAddressFree_iff]
  intro v hv
  obtain ⟨name, -, rfl⟩ := List.mem_map.1 hv
  rfl

theorem LobbyConfig.addressFree_part (c : LobbyConfig) :
    (c.part false).toJson.addressFree = true := by
  obtain ⟨timeout, message, sound⟩ := c
  cases sound <;> rfl

/-- In the section `join` only the address of `forward` is one. -/
theorem JoinConfig.addressFree_putMember (c : JoinConfig) {w : Json} (hw : w.addressFree = true) :
    ∀ m ∈ Json.putMember "forward" w
      [ ("methods", .array (Part.itemsToJson (c.methods.map fun m => Part.text m.name))),
        ("kick", (c.kick.part false).toJson), ("hold", (c.hold.part false).toJson),
        ("forward", (c.forward.part .none).toJson), ("lobby", (c.lobby.part false).toJson) ],
      m.2.addressFree = true :=
  List.forall_mem_cons.2 ⟨c.addressFree_methods, List.forall_mem_cons.2 ⟨rfl,
    List.forall_mem_cons.2 ⟨rfl, List.forall_mem_cons.2 ⟨hw,
      List.forall_mem_cons.2 ⟨c.lobby.addressFree_part, nofun⟩⟩⟩⟩⟩

theorem JoinConfig.withAddressTexts_part {c : JoinConfig} (h : c.forward.address.IsWellFormed) :
    (c.part .none).toJson.withAddressTexts
      = (c.part .none).toJson.putAt ["forward", "address"] (.string c.forward.address.format) :=
  Json.withAddressTexts_eq_putAt rfl rfl (ForwardConfig.withAddressTexts_part h)
    (Json.membersAddressFree_iff.2 (c.addressFree_putMember rfl))

namespace Config

/-- The tree with the texts of its addresses. -/
def shown (c : Config) : Json :=
  ((c.toJson.putAt ["public", "address"] (.string c.front.address.format)).putAt
    ["server", "address"] (.string c.server.address.format)).putAt
    ["join", "forward", "address"] (.string c.join.forward.address.format)

/-- The members of a tree behind those with addresses. -/
def lastMembers (c : Config) : List (String × Json) :=
  Part.fieldsToJson
    ([ ("lockout", c.lockout.part), ("rcon", c.rcon.part), ("advanced", c.advanced.part),
       ("config", c.format.part) ] ++ Part.optionalText "path" c.path)

theorem toJson_eq (c : Config) : c.toJson = .object
    (("public", (c.front.part .none).toJson) :: ("server", (c.server.part .none).toJson) ::
      ("time", c.time.part.toJson) :: ("motd", c.motd.part.toJson) ::
      ("join", (c.join.part .none).toJson) :: c.lastMembers) := rfl

theorem addressFree_lastMembers (c : Config) : Json.membersAddressFree c.lastMembers = true := by
  obtain ⟨path, -, -, -, -, -, -, -, -, ⟨version⟩⟩ := c
  cases path <;> cases version <;> rfl

/-- A whole tree is no address. -/
theorem addressText?_toJson (c : Config) : c.toJson.addressText? = none := by
  obtain ⟨path, -⟩ := c
  cases path <;> rfl

/-- What is shown of a tree is the tree with the texts of its addresses. -/
theorem withAddressTexts_toJson {c : Config} (h : c.IsWellFormed) :
    c.toJson.withAddressTexts = c.shown := by
  have hself := c.addressText?_toJson
  rw [toJson_eq] at hself ⊢
  rw [Json.withAddressTexts_object hself]
  simp only [Json.membersWithAddressTexts, FrontConfig.withAddressTexts_part h.frontAddress,
    ServerConfig.withAddressTexts_part h.serverAddress,
    JoinConfig.withAddressTexts_part h.forwardAddress,
    Json.membersWithAddressTexts_of_addressFree _ c.addressFree_lastMembers]
  rfl

/-- Nothing that is shown is an address. -/
theorem addressFree_shown (c : Config) : c.shown.addressFree = true := by
  have hjoin : ((c.join.part .none).toJson.putAt ["forward", "address"]
      (.string c.join.forward.address.format)).addressFree = true :=
    Json.addressFree_object rfl (c.join.addressFree_putMember rfl)
  have hself : c.shown.addressText? = none := by
    obtain ⟨path, -⟩ := c
    cases path <;> rfl
  refine Json.addressFree_object hself ?_
  exact List.forall_mem_cons.2 ⟨rfl, List.forall_mem_cons.2 ⟨rfl, List.forall_mem_cons.2 ⟨rfl,
    List.forall_mem_cons.2 ⟨rfl, List.forall_mem_cons.2 ⟨hjoin,
      Json.membersAddressFree_iff.1 c.addressFree_lastMembers⟩⟩⟩⟩⟩

end Config

theorem Json.readAddressAt?_of_format {v : Json} {keys : List String} {a : SocketAddress}
    (hv : v.at? keys = some (.string a.format)) (ha : a.IsWellFormed) :
    v.readAddressAt? keys = some (v.putAt keys a.toJson) := by
  simp only [readAddressAt?, hv, SocketAddress.parse_format ha]

namespace Config

/-- The texts that are shown are read as the addresses, which gives the tree. -/
theorem readAddresses?_shown {c : Config} (h : c.IsWellFormed) :
    c.shown.readAddresses? = some c.toJson := by
  have hfront : c.shown.readAddressAt? ["public", "address"]
      = some (c.shown.putAt ["public", "address"] c.front.address.toJson) :=
    Json.readAddressAt?_of_format rfl h.frontAddress
  have hserver : (c.shown.putAt ["public", "address"] c.front.address.toJson).readAddressAt?
      ["server", "address"] = some ((c.shown.putAt ["public", "address"]
        c.front.address.toJson).putAt ["server", "address"] c.server.address.toJson) :=
    Json.readAddressAt?_of_format rfl h.serverAddress
  have hforward : ((c.shown.putAt ["public", "address"] c.front.address.toJson).putAt
      ["server", "address"] c.server.address.toJson).readAddressAt? ["join", "forward", "address"]
        = some c.toJson :=
    Json.readAddressAt?_of_format rfl h.forwardAddress
  rw [Json.readAddresses?, Layout.addresses, List.foldlM_cons, hfront]
  show List.foldlM Json.readAddressAt? _ _ = _
  rw [List.foldlM_cons, hserver]
  show List.foldlM Json.readAddressAt? _ _ = _
  rw [List.foldlM_cons, hforward]
  rfl

/-! ## Where the addresses are -/

theorem mem_of_at?_object {c : Config} {keys : List String} {members : List (String × Json)}
    (h : c.toJson.at? keys = some (.object members)) :
    keys = [] ∨ keys ∈ Layout.sections ∨ keys ∈ Layout.addresses := by
  have hkeys := Json.mem_objectKeys h
  have hall : (c.toJson.objectKeys.all fun keys =>
      keys ∈ [] :: (Layout.sections ++ Layout.addresses)) = true := by
    obtain ⟨path, -, -, -, -, ⟨-, -, -, -, ⟨-, -, sound⟩⟩, -, -, -, ⟨version⟩⟩ := c
    cases path <;> cases sound <;> cases version <;> rfl
  simpa using List.all_eq_true.1 hall keys hkeys

/-- No section is an address. -/
theorem addressText?_of_section {c : Config} {keys : List String} {w : Json}
    (hkeys : keys ∈ Layout.sections) (h : c.toJson.at? keys = some w) : w.addressText? = none := by
  have hall : (Layout.sections.all fun keys =>
      ((c.toJson.at? keys).bind Json.addressText?).isNone) = true := by
    obtain ⟨-, -, -, -, -, ⟨-, -, -, -, ⟨-, -, sound⟩⟩, -, -, -, ⟨version⟩⟩ := c
    cases sound <;> cases version <;> rfl
  have hnone := List.all_eq_true.1 hall keys hkeys
  rw [h] at hnone
  exact Option.isNone_iff_eq_none.1 hnone

/-- A value in a tree is an address exactly where there are the address fields. -/
theorem isSome_addressText?_iff {c : Config} (hc : c.IsWellFormed) {keys : List String} {w : Json}
    (h : c.toJson.at? keys = some w) : w.addressText?.isSome ↔ keys ∈ Layout.addresses := by
  constructor
  · intro hw
    cases w with
    | object members =>
      rcases mem_of_at?_object h with rfl | hsection | haddress
      · have hroot : c.toJson = .object members := Option.some.inj h
        rw [← hroot, c.addressText?_toJson] at hw
        cases hw
      · rw [addressText?_of_section hsection h] at hw
        cases hw
      · exact haddress
    | _ => cases hw
  · intro hkeys
    obtain ⟨a, ha, hat⟩ := hc.isTree.address keys hkeys
    rw [h] at hat
    rw [Option.some.inj hat, SocketAddress.addressText?_toJson ha.port]
    rfl

end Config

/-! ## A tree determines its configuration -/

theorem Json.ofNat_injective : Function.Injective Json.ofNat := by
  intro m n h
  have hmantissa := congrArg Decimal.mantissa (Json.number.inj h)
  exact Int.ofNat.inj hmantissa

theorem JoinMethod.name_injective : Function.Injective JoinMethod.name := by
  intro m n h
  have hfound := congrArg JoinMethod.ofName? h
  rw [JoinMethod.ofName?_name, JoinMethod.ofName?_name] at hfound
  exact Option.some.inj hfound

theorem SocketAddress.toJson_injective : Function.Injective SocketAddress.toJson := by
  rintro ⟨host, port, family⟩ ⟨host', port', family'⟩ h
  have hhost : some (Json.string host) = some (.string host') := congrArg (Json.member? "host") h
  have hport : some (Json.ofNat port) = some (.ofNat port') := congrArg (Json.member? "port") h
  have hfamily : some (Json.ofNat family.number) = some (.ofNat family'.number) :=
    congrArg (Json.member? "family") h
  have hnumber := Json.ofNat_injective (Option.some.inj hfamily)
  obtain rfl := Json.string.inj (Option.some.inj hhost)
  obtain rfl := Json.ofNat_injective (Option.some.inj hport)
  cases family <;> cases family' <;> first | rfl | cases hnumber

theorem SettingType.json?_injective (type : SettingType) : Function.Injective type.json? := by
  intro x y h
  cases type with
  | text => exact Json.string.inj (Option.some.inj h)
  | optionalText => exact Option.map_injective (fun _ _ => Json.string.inj) h
  | flag => exact Json.bool.inj (Option.some.inj h)
  | number max => exact Json.ofNat_injective (Option.some.inj h)
  | address => exact SocketAddress.toJson_injective (Option.some.inj h)
  | methods =>
    have hnames := Json.array.inj (Option.some.inj h)
    exact List.map_injective_iff.2
      (fun m n h => JoinMethod.name_injective (Json.string.inj h)) hnames

/-- A configuration is determined by its tree. -/
theorem Config.toJson_injective : Function.Injective Config.toJson := by
  intro c c' h
  have hpath : c.path = c'.path := by
    have hat := congrArg (Json.at? ["path"]) h
    rw [at?_path, at?_path] at hat
    exact Option.map_injective (fun _ _ => Json.string.inj) hat
  have hsettings : { c with path := none } = { c' with path := none } := by
    refine eq_of_get rfl rfl fun s => ?_
    have hat := congrArg (Json.at? s.keys) h
    rw [at?_keys, at?_keys] at hat
    have hget := s.type.json?_injective hat
    cases s <;> exact hget
  calc c = { { c with path := none } with path := c.path } := rfl
    _ = { { c' with path := none } with path := c'.path } := by rw [hsettings, hpath]
    _ = c' := rfl

/-! ## What is printed -/

/-- The text of a well-formed configuration is read as what is shown of it. -/
theorem Config.read?_render {c : Config} (h : c.IsWellFormed) :
    Json.read? c.render.toList = some c.shown := by
  rw [render, String.toList_ofList, withAddressTexts_toJson h, Json.read?_indented]

/-- Well-formed configurations with one text are the same. -/
theorem Config.eq_of_render {c c' : Config} (h : c.IsWellFormed) (h' : c'.IsWellFormed)
    (hrender : c.render = c'.render) : c = c' := by
  have hread := read?_render h
  rw [hrender, read?_render h'] at hread
  have hvalue := readAddresses?_shown h
  rw [← Option.some.inj hread, readAddresses?_shown h'] at hvalue
  exact toJson_injective (Option.some.inj hvalue.symm)

/-- A text that a tree may lack is shown exactly where the tree has it. -/
theorem Config.at?_shown (c : Config) :
    c.shown.at? ["path"] = c.path.map Json.string ∧
    c.shown.at? ["config", "version"] = c.format.version.map Json.string ∧
    c.shown.at? ["join", "lobby", "ready_sound"] = c.join.lobby.readySound.map Json.string := by
  obtain ⟨path, -, -, -, -, ⟨-, -, -, -, ⟨-, -, sound⟩⟩, -, -, -, ⟨version⟩⟩ := c
  cases path <;> cases sound <;> cases version <;> exact ⟨rfl, rfl, rfl⟩

/-- **What is printed of a tree is all of it.** The text of a tree that is loaded is read as a value
that is the tree itself once its three address fields are read as addresses. It has a path, a
version and a sound exactly where the configuration has them, and no address is left in it; the
objects of the tree that are taken for addresses are the address fields and no others. So trees
with one text are the same, wherever they are loaded. -/
theorem render_lossless {s : Surroundings} {l : LoadedConfig} (h : l.IsLoaded s) :
    (∃ shown, Json.read? l.config.render.toList = some shown ∧
      shown.readAddresses? = some l.tree.toJson ∧
      (shown.at? ["path"] = l.config.path.map Json.string ∧
        shown.at? ["config", "version"] = l.config.format.version.map Json.string ∧
        shown.at? ["join", "lobby", "ready_sound"] =
          l.config.join.lobby.readySound.map Json.string) ∧
      ∀ w : Json, w.IsIn shown → w.addressText? = none) ∧
    (∀ keys w, l.tree.toJson.at? keys = some w →
      (w.addressText?.isSome ↔ keys ∈ Layout.addresses)) ∧
    ∀ (s' : Surroundings) (l' : LoadedConfig), l'.IsLoaded s' →
      l'.config.render = l.config.render →
        l'.config = l.config ∧ l'.tree.toJson = l.tree.toJson := by
  have hl := h.wellFormed
  rw [h.toJson_tree]
  refine ⟨⟨l.config.shown, Config.read?_render hl, Config.readAddresses?_shown hl,
    l.config.at?_shown, fun w hw => Json.addressText?_of_isIn hw l.config.addressFree_shown⟩,
    fun keys w hw => Config.isSome_addressText?_iff hl hw, fun s' l' h' hrender => ?_⟩
  have hconfig := Config.eq_of_render h'.wellFormed hl hrender
  exact ⟨hconfig, by rw [h'.toJson_tree, hconfig]⟩

theorem render_lossless_oneFile :
    ∃ l : LoadedConfig, l.IsLoaded oneFile ∧ ∃ shown,
      Json.read? l.config.render.toList = some shown ∧
      shown.readAddresses? = some l.tree.toJson := by
  obtain ⟨l, hl⟩ := exists_ok (x := (load oneFile "a").result) (by decide +kernel)
  obtain ⟨⟨shown, hread, haddresses, -, -⟩, -, -⟩ := render_lossless (.candidate hl)
  exact ⟨l, .candidate hl, shown, hread, haddresses⟩

end WakeConfig
