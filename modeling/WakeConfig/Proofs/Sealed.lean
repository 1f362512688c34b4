import WakeConfig.Proofs.Loaded

/-!
# Loaded trees are sealed

A tree is sealed when nothing that stands in it can be changed. Sealing passes over what has a
seal already, so it reaches everything only if such a part was sealed throughout before
(`IsDeep`). The default parts are: `isDeep_part` says so of every tree that is built, whichever of
its parts are defaults. `sealed_of_loaded` is the result for both sources.
-/

namespace WakeConfig

/-! ## What stands in a part -/

namespace Part

/-- A part stands in another if it is that part itself or stands in one of its entries. -/
inductive IsIn : Part → Part → Prop
  | self (p : Part) : IsIn p p
  | item {q item : Part} {hasSeal : Bool} {items : List Part} :
      item ∈ items → IsIn q item → IsIn q (list hasSeal items)
  | field {q p : Part} {name : String} {hasSeal : Bool} {fields : List (String × Part)} :
      (name, p) ∈ fields → IsIn q p → IsIn q (record hasSeal fields)

theorem IsIn.trans {p q r : Part} (hr : r.IsIn q) (hq : q.IsIn p) : r.IsIn p := by
  induction hq with
  | self => exact hr
  | item hp _ ih => exact .item hp ih
  | field hp _ ih => exact .field hp ih

/-- Everything in a part is sealed. -/
def SealedThroughout (p : Part) : Prop := ∀ q : Part, q.IsIn p → q.isSealed = true

/-- Every sealed part in a part is sealed throughout. -/
def IsDeep (p : Part) : Prop := ∀ q : Part, q.IsIn p → q.isSealed = true → q.SealedThroughout

theorem sealedThroughout_value (v : Json) : (value v).SealedThroughout := by
  rintro q ⟨⟩
  rfl

theorem SealedThroughout.item {hasSeal : Bool} {items : List Part}
    (h : (list hasSeal items).SealedThroughout) {p : Part} (hp : p ∈ items) : p.SealedThroughout :=
  fun q hq => h q (.item hp hq)

theorem SealedThroughout.field {hasSeal : Bool} {fields : List (String × Part)}
    (h : (record hasSeal fields).SealedThroughout) {name : String} {p : Part}
    (hp : (name, p) ∈ fields) :
    p.SealedThroughout :=
  fun q hq => h q (.field hp hq)

theorem sealedThroughout_list {items : List Part} (h : ∀ p ∈ items, p.SealedThroughout) :
    (list true items).SealedThroughout := by
  intro q hq
  cases hq with
  | self => rfl
  | item hp hq => exact h _ hp q hq

theorem sealedThroughout_record {fields : List (String × Part)}
    (h : ∀ f ∈ fields, f.2.SealedThroughout) :
    (record true fields).SealedThroughout := by
  intro q hq
  cases hq with
  | self => rfl
  | field hp hq => exact h _ hp q hq

/-! ## Changes -/

/-- What a key leads to stands in the part, or is a number that belongs to a list. -/
theorem SealedThroughout.child {p child : Part} (h : p.SealedThroughout) {key : String}
    (hc : p.child? key = some child) : child.SealedThroughout := by
  cases p with
  | value v => cases hc
  | list hasSeal items =>
    rw [child?] at hc
    split at hc
    · obtain rfl := Option.some.inj hc
      exact sealedThroughout_value _
    · obtain ⟨i, -, hi⟩ := Option.bind_eq_some_iff.1 hc
      exact h.item (List.mem_of_getElem? hi)
  | record hasSeal fields =>
    obtain ⟨before, after, rfl, -⟩ := List.lookup_eq_some_iff.1 hc
    exact h.field (List.mem_append_right _ List.mem_cons_self)

/-- Nothing in a sealed part can be changed, under whatever keys. -/
theorem SealedThroughout.assign?_eq_none {p : Part} (h : p.SealedThroughout) (v : Json)
    (keys : List String) :
    p.assign? v keys = none := by
  induction keys generalizing p with
  | nil => rfl
  | cons key rest ih =>
    cases rest with
    | nil => rw [assign?, if_pos (h p (.self p))]
    | cons next rest =>
      rw [assign?]
      cases hc : p.child? key with
      | none => rfl
      | some child => rw [Option.bind_some, ih (h.child hc), Option.bind_none]

/-! ## Sealing -/

theorem SealedThroughout.isDeep {p : Part} (h : p.SealedThroughout) : p.IsDeep :=
  fun _ hq _ r hr => h r (hr.trans hq)

theorem IsDeep.item {hasSeal : Bool} {items : List Part} (h : (list hasSeal items).IsDeep)
    {p : Part} (hp : p ∈ items) : p.IsDeep :=
  fun q hq => h q (.item hp hq)

theorem IsDeep.field {hasSeal : Bool} {fields : List (String × Part)}
    (h : (record hasSeal fields).IsDeep) {name : String} {p : Part} (hp : (name, p) ∈ fields) :
    p.IsDeep :=
  fun q hq => h q (.field hp hq)

mutual
/-- Sealing a part seals everything in it, if what was sealed before was sealed throughout. -/
theorem sealedThroughout_close : (p : Part) → p.IsDeep → p.close.SealedThroughout
  | value v, _ => sealedThroughout_value v
  | list _ items, h =>
    sealedThroughout_list (sealedThroughout_closeItems items fun _ hp => h.item hp)
  | record _ fields, h =>
    sealedThroughout_record (sealedThroughout_closeFields fields fun _ hp => h.field hp)

/-- Sealing some items seals everything in them. -/
theorem sealedThroughout_closeItems : (items : List Part) → (∀ p ∈ items, p.IsDeep) →
    ∀ p ∈ closeItems items, p.SealedThroughout
  | [], _, _, hp => nomatch hp
  | item :: rest, h, p, hp => by
    have hclose := sealedThroughout_close item (h item List.mem_cons_self)
    rw [closeItems, List.mem_cons] at hp
    rcases hp with rfl | hp
    · split
      · rename_i hs
        exact h item List.mem_cons_self item (.self item) hs
      · exact hclose
    · exact sealedThroughout_closeItems rest (fun q hq => h q (List.mem_cons_of_mem _ hq)) p hp

/-- Sealing some fields seals everything in them. -/
theorem sealedThroughout_closeFields : (fields : List (String × Part)) →
    (∀ f ∈ fields, f.2.IsDeep) →
    ∀ f ∈ closeFields fields, f.2.SealedThroughout
  | [], _, _, hf => nomatch hf
  | (name, p) :: rest, h, f, hf => by
    have hclose := sealedThroughout_close p (h (name, p) List.mem_cons_self)
    rw [closeFields, List.mem_cons] at hf
    rcases hf with rfl | hf
    · dsimp only
      split
      · rename_i hs
        exact h (name, p) List.mem_cons_self p (.self p) hs
      · exact hclose
    · exact sealedThroughout_closeFields rest (fun q hq => h q (List.mem_cons_of_mem _ hq)) f hf
end

/-! ## Layouts -/

/-- A part is a plain value. -/
def IsLeaf (p : Part) : Prop := ∃ v, p = value v

@[simp] theorem isLeaf_text (s : String) : (text s).IsLeaf := ⟨_, rfl⟩

@[simp] theorem isLeaf_flag (b : Bool) : (flag b).IsLeaf := ⟨_, rfl⟩

@[simp] theorem isLeaf_number (n : Nat) : (number n).IsLeaf := ⟨_, rfl⟩

theorem isLeaf_optionalText (name : String) (s? : Option String) :
    ∀ f ∈ optionalText name s?, f.2.IsLeaf := by
  cases s? <;> simp [optionalText]

theorem IsLeaf.sealedThroughout {p : Part} (h : p.IsLeaf) : p.SealedThroughout := by
  obtain ⟨v, rfl⟩ := h
  exact sealedThroughout_value v

theorem IsLeaf.isDeep {p : Part} (h : p.IsLeaf) : p.IsDeep := h.sealedThroughout.isDeep

/-- A record whose seal says nothing wrong of its fields. -/
theorem isDeep_record {hasSeal : Bool} {fields : List (String × Part)}
    (h : ∀ f ∈ fields, f.2.IsDeep)
    (hs : hasSeal = true → ∀ f ∈ fields, f.2.SealedThroughout) :
    (record hasSeal fields).IsDeep := by
  intro q hq hseal
  cases hq with
  | self =>
    obtain rfl : hasSeal = true := hseal
    exact sealedThroughout_record (hs rfl)
  | field hp hq => exact h _ hp q hq hseal

/-- A record of plain values, sealed or not. -/
theorem isDeep_leaves {hasSeal : Bool} {fields : List (String × Part)}
    (h : ∀ f ∈ fields, f.2.IsLeaf) : (record hasSeal fields).IsDeep :=
  isDeep_record (fun f hf => (h f hf).isDeep) fun _ f hf => (h f hf).sealedThroughout

/-- A list of plain values, sealed or not. -/
theorem isDeep_list {hasSeal : Bool} {items : List Part} (h : ∀ p ∈ items, p.IsLeaf) :
    (list hasSeal items).IsDeep := by
  intro q hq hseal
  cases hq with
  | self =>
    obtain rfl : hasSeal = true := hseal
    exact sealedThroughout_list fun p hp => (h p hp).sealedThroughout
  | item hp hq => exact (h _ hp).isDeep q hq hseal

end Part

open WakeConfig.Part (IsLeaf IsDeep SealedThroughout)

theorem SocketAddress.isDeep_part (isCommon : Bool) (a : SocketAddress) :
    (a.part isCommon).IsDeep :=
  Part.isDeep_leaves (by simp)

theorem SocketAddress.sealedThroughout_part (a : SocketAddress) :
    (a.part true).SealedThroughout :=
  a.isDeep_part true _ (.self _) rfl

theorem ForwardConfig.isDeep_part {common : CommonParts}
    (h : common.joinSections = true → common.forwardAddress = true) (c : ForwardConfig) :
    (c.part common).IsDeep := by
  refine Part.isDeep_record ?_ fun hs => ?_
  · simp [(Part.isLeaf_flag _).isDeep, SocketAddress.isDeep_part]
  · rw [h hs]
    simp [(Part.isLeaf_flag _).sealedThroughout, SocketAddress.sealedThroughout_part]

theorem JoinConfig.isDeep_part {common : CommonParts}
    (h : common.joinSections = true → common.forwardAddress = true) (c : JoinConfig) :
    (c.part common).IsDeep := by
  have hmethods : (Part.list common.methods (c.methods.map fun m => Part.text m.name)).IsDeep :=
    Part.isDeep_list (by simp)
  have hkick : (c.kick.part common.joinSections).IsDeep := Part.isDeep_leaves (by simp)
  have hhold : (c.hold.part common.joinSections).IsDeep := Part.isDeep_leaves (by simp)
  have hlobby : (c.lobby.part common.joinSections).IsDeep :=
    Part.isDeep_leaves (List.forall_mem_append.2 ⟨by simp, Part.isLeaf_optionalText _ _⟩)
  refine Part.isDeep_record ?_ nofun
  simp [hmethods, hkick, hhold, hlobby, ForwardConfig.isDeep_part h]

/-- The tree of a configuration is deep if a default `join` section has its default address. -/
theorem Config.isDeep_part {common : CommonParts}
    (h : common.joinSections = true → common.forwardAddress = true) (c : Config) :
    (c.part common).IsDeep := by
  have hfront : (c.front.part common).IsDeep :=
    Part.isDeep_record (by simp [IsLeaf.isDeep, SocketAddress.isDeep_part]) nofun
  have hserver : (c.server.part common).IsDeep :=
    Part.isDeep_record (by simp [IsLeaf.isDeep, SocketAddress.isDeep_part]) nofun
  have htime : c.time.part.IsDeep := Part.isDeep_leaves (by simp)
  have hmotd : c.motd.part.IsDeep := Part.isDeep_leaves (by simp)
  have hlockout : c.lockout.part.IsDeep := Part.isDeep_leaves (by simp)
  have hrcon : c.rcon.part.IsDeep := Part.isDeep_leaves (by simp)
  have hadvanced : c.advanced.part.IsDeep := Part.isDeep_leaves (by simp)
  have hformat : c.format.part.IsDeep := Part.isDeep_leaves (Part.isLeaf_optionalText _ _)
  refine Part.isDeep_record (List.forall_mem_append.2 ⟨?_, fun f hf => ?_⟩) nofun
  · simp [hfront, hserver, htime, hmotd, JoinConfig.isDeep_part h, hlockout, hrcon, hadvanced,
      hformat]
  · exact (Part.isLeaf_optionalText _ _ f hf).isDeep

/-- A file without a `join` section has no address in it. -/
theorem FromToml.forwardAddress_common (t : Toml.Table)
    (h : (common t).joinSections = true) : (common t).forwardAddress = true := by
  have hnone : sectionTable? t "join" = none := Option.isNone_iff_eq_none.1 h
  show lacks ((sectionTable? t "join").bind fun j => sectionTable? j "forward") "address" = true
  rw [hnone]
  rfl

/-! ## Loaded trees -/

namespace Load

variable {s : Surroundings} {path? : Option String} {common : CommonParts} {c : Config}

/-- The default parts that a source leaves in a tree are sealed throughout. -/
theorem Gives.isDeep (h : Gives s path? common c) (c' : Config) : (c'.part common).IsDeep := by
  cases h with
  | @file _ _ t => exact c'.isDeep_part (FromToml.forwardAddress_common t)
  | environment => exact c'.isDeep_part fun h => absurd h Bool.false_ne_true

theorem Gives.sealedThroughout (h : Gives s path? common c) (directory : String) :
    (finish directory path? common c).tree.SealedThroughout :=
  Part.sealedThroughout_close _ (h.isDeep _)

end Load

/-- **Every tree that is loaded is sealed all the way down.** Whichever sections and fields are
defaults, everything that stands in a tree from a file or from an environment is sealed, and no
value in it can be changed under any keys. Before a tree from a file was finished, what was sealed
in it, the default parts, was sealed throughout; finishing has changed no value of what the text
is read as but the server directory and the path. Finishing a tree from an environment has changed
no value at all. -/
theorem sealed_of_loaded (s : Surroundings) :
    (∀ path l, (Load.fromFile s path).result = .ok l →
      l.tree.SealedThroughout ∧ (∀ v keys, l.tree.assign? v keys = none) ∧
      ∃ text c, s.files.readText s.directory path = .ok text ∧
        (FromToml.parse s.platform s.resolver text).result = .ok c ∧
        (c.part (FromToml.parse s.platform s.resolver text).common).IsDeep ∧
        ∀ keys ∉ Load.finishedKeys, l.tree.toJson.at? keys = c.toJson.at? keys) ∧
    (∀ l, (Load.fromEnvironment s).result = .ok l →
      l.tree.SealedThroughout ∧ (∀ v keys, l.tree.assign? v keys = none) ∧
      ∃ c, (FromEnvironment.read s.platform s.resolver s.environment).result = .ok c ∧
        l.tree.toJson = c.toJson) := by
  constructor
  · intro path l h
    obtain ⟨common, c, hgives, rfl⟩ := Load.result_fromFile_iff.1 h
    obtain ⟨text, hread, hparse, hcommon⟩ := hgives.parse
    have hsealed := hgives.sealedThroughout s.directory
    have hdeep : (c.part (FromToml.parse s.platform s.resolver text).common).IsDeep :=
      hcommon ▸ hgives.isDeep c
    refine ⟨hsealed, hsealed.assign?_eq_none, text, c, hread, hparse, hdeep, fun keys hkeys => ?_⟩
    rw [Load.toJson_finish, Load.at?_located _ _ _ hkeys]
  · intro l h
    obtain ⟨c, hgives, rfl⟩ := Load.result_fromEnvironment_iff.1 h
    have hsealed := hgives.sealedThroughout s.directory
    refine ⟨hsealed, hsealed.assign?_eq_none, c, ?_, ?_⟩
    · cases hgives with
      | environment hread => exact hread
    · rw [Load.toJson_finish, Load.located_none _ hgives.describes.2]

theorem sealed_oneFile :
    (∃ l, (Load.fromFile oneFile "/a").result = .ok l ∧ l.tree.SealedThroughout ∧
      l.tree.assign? .null ["join", "forward", "address", "port"] = none) ∧
    (∃ l, (Load.fromEnvironment oneFile).result = .ok l ∧ l.tree.SealedThroughout) := by
  obtain ⟨l, hl⟩ := exists_ok (x := (Load.fromFile oneFile "/a").result) (by decide +kernel)
  obtain ⟨m, hm⟩ := exists_ok (x := (Load.fromEnvironment oneFile).result) (by decide +kernel)
  obtain ⟨hsealed, hassign, -⟩ := (sealed_of_loaded oneFile).1 "/a" l hl
  exact ⟨⟨l, hl, hsealed, hassign _ _⟩, m, hm, ((sealed_of_loaded oneFile).2 m hm).1⟩

end WakeConfig
