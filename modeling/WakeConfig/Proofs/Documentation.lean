import WakeConfig.Proofs.AddressText
import WakeConfig.Proofs.Variables

/-!
# Documented variables

The documentation is kept beside the readers and the defaults, and lists for each variable a name
and the text of a default. `read_documented` ties the three together: the variables that are read
are those that are documented, each once and always in one order, which only an address that raises
an error breaks off, and a documented default says what an unset variable says, however the default
has to be written to be a text.
-/

namespace WakeConfig

/-! ## Defaults as texts -/

theorem Text.unescape_of_not_mem {text : String} (h : '\\' ∉ text.toList) :
    unescape text = text := by
  rw [unescape, decodeEscapes_of_not_mem h, String.ofList_toList]

/-- Decimal digits are written as their number. -/
theorem Coerce.isDecimal_toString (n : Nat) : IsDecimal (toString n) n := by
  refine ⟨Nat.toDigits 10 n, .inl ?_, Nat.toDigits_ne_nil, fun d => Text.isDigit_of_mem_toDigits,
    Text.digitsValue_toDigits n⟩
  rw [Nat.toString_eq_ofList_toDigits, String.toList_ofList]

/-- An address that is written out is resolved to itself, and no name is looked up. -/
theorem SocketAddress.resolve_format (answer : String → HostAnswer) {a : SocketAddress}
    (h : a.IsWellFormed) : resolve answer a.format = ⟨.ok a, []⟩ :=
  resolve_eq_iff.2 (.literal (parse_format h))

theorem SocketAddress.asked_format {a : SocketAddress} (h : a.IsWellFormed) :
    asked a.format = [] := by
  rw [← lookups_resolve fun _ => .addresses [], resolve_format _ h]

namespace SettingType

/-- The text that is documented for a default; one that is missing has none. -/
def documented? : (type : SettingType) → type.Value → Option String
  | text, x => some x
  | optionalText, x? => x?
  | flag, b => some (if b then "true" else "false")
  | number _, n => some (toString n)
  | address, a => some a.format
  | methods, ms => some (",".intercalate (ms.map JoinMethod.name))

/-- A value that may be documented as it is: no text has an escape to be decoded in it or is the
empty one where that clears a setting, and numbers and addresses are in range. -/
def IsPlain : (type : SettingType) → type.Value → Prop
  | text, x => '\\' ∉ x.toList
  | optionalText, x? => ∀ x ∈ x?, x ≠ "" ∧ '\\' ∉ x.toList
  | flag, _ => True
  | number max, n => n ≤ max
  | address, a => a.IsWellFormed
  | methods, _ => True

instance : (type : SettingType) → DecidablePred type.IsPlain
  | text => fun x => inferInstanceAs (Decidable ('\\' ∉ x.toList))
  | optionalText => fun
    | none => isTrue fun _ hx => nomatch hx
    | some x => decidable_of_iff (x ≠ "" ∧ '\\' ∉ x.toList)
        ⟨fun h _ hy => Option.some.inj hy ▸ h, fun h => h x rfl⟩
  | flag => fun _ => isTrue trivial
  | number max => fun n => inferInstanceAs (Decidable (n ≤ max))
  | address => fun a => inferInstanceAs (Decidable a.IsWellFormed)
  | methods => fun _ => isTrue trivial

variable {answer : String → HostAnswer} {type : SettingType} {v : type.Value} {d : String}

/-- What is documented for a value is one of the texts that spell it. -/
theorem spells_documented (hv : type.IsPlain v) (hd : type.documented? v = some d) :
    type.Spells answer d v := by
  cases type with
  | text =>
    obtain rfl := Option.some.inj hd
    exact Text.unescape_of_not_mem hv
  | optionalText =>
    obtain rfl : v = some d := hd
    obtain ⟨hne, hescape⟩ := hv d rfl
    rw [Spells, if_neg hne, Text.unescape_of_not_mem hescape]
  | flag =>
    obtain rfl := Option.some.inj hd
    exact Coerce.isTruth_word v
  | number max =>
    obtain rfl := Option.some.inj hd
    exact ⟨Coerce.isDecimal_toString v, hv⟩
  | address =>
    obtain rfl := Option.some.inj hd
    rw [Spells, SocketAddress.resolve_format answer hv]
  | methods =>
    obtain rfl := Option.some.inj hd
    exact Coerce.methods_joined v

/-- No name is looked up for a documented address. -/
theorem asked_documented (htype : type = .address) (hv : type.IsPlain v)
    (hd : type.documented? v = some d) : SocketAddress.asked d = [] := by
  subst htype
  obtain rfl := Option.some.inj hd
  exact SocketAddress.asked_format hv

end SettingType

/-! ## The documentation and the settings -/

namespace Setting

theorem isPlain_default (s : Setting) (platform : Platform) :
    s.type.IsPlain (s.default platform) := by
  have hall : ∀ s ∈ all, s.type.IsPlain (s.default platform) := by
    cases platform <;> decide +kernel
  exact hall s s.mem_all

/-- The text that is documented for the default of a setting. The start command has none. -/
def documented? (s : Setting) (platform : Platform) : Option String :=
  if s = .serverCommand then none else s.type.documented? (s.default platform)

/-- Names and defaults are documented as the settings have them. -/
theorem defaults_documented (platform : Platform) :
    (VariableDoc.all platform).map (fun doc => (doc.name, doc.default?))
      = all.map fun s => (s.variableName, s.documented? platform) := by
  have hnames : (all.map fun s => (s.variableName, s.documented? platform))
      = all.map fun s => (Reader.fullName s.readerKey, s.documented? platform) :=
    List.map_congr_left fun s _ => by rw [variableName_eq]
  rw [hnames]
  cases platform <;> decide +kernel

/-- Every setting is read once. -/
theorem perm_readOrder : readOrder.Perm all := by decide +kernel

theorem nodup_readOrder : (readOrder.map variableName).Nodup := by
  have horder : readOrder.Nodup := by decide +kernel
  exact horder.map fun s s' h => eq_of_variableName h

/-- What is read until a setting is stands in front of the rest of the order. -/
theorem exists_readOrder (s : Setting) :
    ∃ before after, readOrder = before ++ s :: after ∧ s.readUntil = before ++ [s] := by
  have hmem : s ∈ readOrder := perm_readOrder.mem_iff.2 s.mem_all
  obtain ⟨before, after, horder, hnot⟩ := List.eq_append_cons_of_mem hmem
  refine ⟨before, after, horder, ?_⟩
  have hbefore : ∀ s' ∈ before, decide (s' ≠ s) = true :=
    fun s' hs' => decide_eq_true fun h => hnot (h ▸ hs')
  rw [readUntil, horder, List.takeWhile_append_of_pos hbefore]
  simp

end Setting

/-- A documented default is that of the setting whose variable is documented. -/
theorem VariableDoc.exists_documented {platform : Platform} {doc : VariableDoc}
    (hdoc : doc ∈ all platform) {d : String} (hd : d ∈ doc.default?) :
    ∃ s : Setting, s ≠ .serverCommand ∧ s.variableName = doc.name ∧
      s.type.documented? (s.default platform) = some d := by
  have hentry : (doc.name, doc.default?)
      ∈ Setting.all.map fun s => (s.variableName, s.documented? platform) := by
    rw [← Setting.defaults_documented]
    exact List.mem_map_of_mem hdoc
  obtain ⟨s, -, hs⟩ := List.mem_map.1 hentry
  obtain ⟨hname, hdefault⟩ := Prod.mk.inj hs
  rw [hd, Setting.documented?] at hdefault
  split at hdefault
  · cases hdefault
  · rename_i hne
    exact ⟨s, hne, hname, hdefault⟩

/-! ## What is read -/

namespace FromEnvironment

open Reader (Source Trace)

variable {platform : Platform} {resolver : HostResolver} {e : Environment}

theorem names_read_of_quiet (h : e.HasCommand)
    (hquiet : ∀ s raised, ¬ Source.Raises ⟨e, resolver, platform⟩ s raised) :
    (read platform resolver e).trace.names = Setting.readOrder.map Setting.variableName := by
  rw [read_of_quiet h hquiet, Trace.seen, List.nil_append, List.map_map]
  exact List.map_congr_left fun s _ => (Setting.variableName_eq s).symm

theorem names_read_of_raisesFirst (h : e.HasCommand) {s : Setting} {raised : LookupError}
    (hraises : Source.RaisesFirst ⟨e, resolver, platform⟩ s raised) :
    (read platform resolver e).trace.names = s.readUntil.map Setting.variableName := by
  rw [read_of_raisesFirst h hraises, Trace.seen, List.nil_append, List.map_map]
  exact List.map_congr_left fun s _ => (Setting.variableName_eq s).symm

/-- A setting that is given its documented default has the value that it has without a variable, and
no name is looked up for it, so that the resolver answers all others as it did. -/
theorem read_set_default (platform : Platform) (resolver : HostResolver) (e : Environment)
    {s : Setting} {d : String} (hs : s ≠ .serverCommand)
    (hd : s.type.documented? (s.default platform) = some d) :
    read platform resolver (e.set s.variableName (some d))
      = read platform resolver (e.set s.variableName none) := by
  have hcommand : Default.commandVariable ≠ s.variableName := by
    rw [← Setting.variableName_serverCommand]
    exact fun h => hs (Setting.eq_of_variableName h).symm
  refine read_congr_value platform resolver ?_ (fun heard => funext fun s' => ?_)
    fun s' htype => ?_
  · rw [Environment.get?_set, Environment.get?_set, if_neg hcommand, if_neg hcommand]
  · rw [Source.value, Source.value, text?_set, text?_set]
    by_cases hsame : s' = s
    · subst hsame
      have hdecodes := s'.decodes_ofVariable platform (resolver heard)
      rw [if_pos rfl, if_pos rfl, hdecodes.unset]
      exact hdecodes.spelled d (s'.default platform)
        (SettingType.spells_documented (s'.isPlain_default platform) hd)
    · rw [if_neg hsame, if_neg hsame]
  · rw [Source.asked, Source.asked, text?_set, text?_set]
    by_cases hsame : s' = s
    · subst hsame
      rw [if_pos rfl, if_pos rfl]
      exact SettingType.asked_documented htype (s'.isPlain_default platform) hd
    · rw [if_neg hsame, if_neg hsame]

/-- **The documentation is what is read.** The variables of `Setting.readOrder` are the documented
ones, each of them once. Where there is a start command, whatever the other variables and the
answers of the resolver, they are read in this order. Either no address raises an error: then a tree
is read, and all of them are. Or an address is the first to raise one, because its name is refused
with something that has no text: then this error is the outcome, and its variable is the last that
is read. To set a variable to its documented default is to leave it unset, in every environment: the
tree is the same, or the error, and so are the variables that are read and the names that are looked
up. -/
theorem read_documented (platform : Platform) (resolver : HostResolver) (e : Environment) :
    let order := Setting.readOrder.map Setting.variableName
    (order.Nodup ∧ order.Perm ((VariableDoc.all platform).map VariableDoc.name)) ∧
    (e.HasCommand →
      ((∀ s raised, ¬ Source.Raises ⟨e, resolver, platform⟩ s raised) ∧
        ∃ c, (read platform resolver e).result = .ok c ∧
          (read platform resolver e).trace.names = order) ∨
      ∃ s raised, Source.RaisesFirst ⟨e, resolver, platform⟩ s raised ∧
        (read platform resolver e).result = .error (.foreign raised) ∧
        ∃ before after, order = before ++ s.variableName :: after ∧
          (read platform resolver e).trace.names = before ++ [s.variableName]) ∧
    ∀ doc ∈ VariableDoc.all platform, ∀ d ∈ doc.default?,
      read platform resolver (e.set doc.name (some d))
        = read platform resolver (e.set doc.name none) := by
  refine ⟨⟨Setting.nodup_readOrder, ?_⟩, fun he => ?_, fun doc hdoc d hd => ?_⟩
  · rw [Setting.names_documented]
    exact Setting.perm_readOrder.map _
  · rcases quiet_or_raisesFirst ⟨e, resolver, platform⟩ with hquiet | ⟨s, raised, hraises⟩
    · exact .inl ⟨hquiet, _, by rw [read_of_quiet he hquiet], names_read_of_quiet he hquiet⟩
    · obtain ⟨before, after, horder, huntil⟩ := s.exists_readOrder
      refine .inr ⟨s, raised, hraises, by rw [read_of_raisesFirst he hraises],
        before.map Setting.variableName, after.map Setting.variableName, ?_, ?_⟩
      · rw [horder, List.map_append, List.map_cons]
      · rw [names_read_of_raisesFirst he hraises, huntil, List.map_append, List.map_singleton]
  · obtain ⟨s, hs, hname, hdefault⟩ := VariableDoc.exists_documented hdoc hd
    rw [← hname]
    exact read_set_default platform resolver e hs hdefault

/-- A resolver that knows every name when it is asked for the first time, and no name later. -/
def onceOnly : HostResolver
  | [], _ => .addresses ["::1"]
  | _, _ => .addresses []

theorem exists_addresses_onceOnly (heard : List String) (host : String) :
    ∃ found, onceOnly heard host = .addresses found := by
  cases heard with
  | nil => exact ⟨_, rfl⟩
  | cons => exact ⟨_, rfl⟩

/-- The default of the first address is no name, so that the next one is still the first to be
looked up. A text of two lines, a list and what a platform has as its default are read as they are
documented. -/
theorem read_documented_twoVariables :
    twoVariables.HasCommand ∧
    (∃ c, (read .other onceOnly twoVariables).result = .ok c ∧
      (read .other onceOnly twoVariables).trace.names.length = 41) ∧
    read .other onceOnly (twoVariables.set "LAZYMC_PUBLIC_ADDRESS" (some "0.0.0.0:25565"))
      = read .other onceOnly (twoVariables.set "LAZYMC_PUBLIC_ADDRESS" none) ∧
    read .other onceOnly (twoVariables.set "LAZYMC_MOTD_SLEEPING"
        (some "☠ Server is sleeping\n§2☻ Join to start it up"))
      = read .other onceOnly (twoVariables.set "LAZYMC_MOTD_SLEEPING" none) ∧
    read .other onceOnly (twoVariables.set "LAZYMC_JOIN_METHODS" (some "hold,kick"))
      = read .other onceOnly (twoVariables.set "LAZYMC_JOIN_METHODS" none) ∧
    read .windows onceOnly (twoVariables.set "LAZYMC_RCON_ENABLED" (some "true"))
      = read .windows onceOnly (twoVariables.set "LAZYMC_RCON_ENABLED" none) := by
  have hcommand : twoVariables.HasCommand := ⟨"x", by decide +kernel, 'x', by decide, by decide⟩
  have hset : ∀ platform name d,
      (name, some d) ∈ (VariableDoc.all platform).map (fun doc => (doc.name, doc.default?)) →
        read platform onceOnly (twoVariables.set name (some d))
          = read platform onceOnly (twoVariables.set name none) := by
    intro platform name d h
    obtain ⟨doc, hdoc, heq⟩ := List.mem_map.1 h
    obtain ⟨rfl, hd⟩ := Prod.mk.inj heq
    exact (read_documented platform onceOnly twoVariables).2.2 doc hdoc d hd
  refine ⟨hcommand, ?_, hset _ _ _ ?_, hset _ _ _ ?_, hset _ _ _ ?_, hset _ _ _ ?_⟩
  · obtain ⟨⟨-, hperm⟩, hread, -⟩ := read_documented .other onceOnly twoVariables
    rcases hread hcommand with
      ⟨-, c, hc, hnames⟩ | ⟨s, raised, ⟨⟨-, text, -, host, -, hrefused⟩, -⟩, -⟩
    · refine ⟨c, hc, ?_⟩
      rw [hnames, hperm.length_eq]
      rfl
    · obtain ⟨found, hfound⟩ := exists_addresses_onceOnly
        (s.heard (Source.text? ⟨twoVariables, onceOnly, .other⟩)) host
      cases hfound.symm.trans hrefused
  all_goals decide +kernel

/-- A name that is refused with something that has no text ends the reading: two of the 41 variables
are read. -/
theorem read_documented_textless :
    let e := oneVariable.set "LAZYMC_PUBLIC_ADDRESS" (some "h:1")
    e.HasCommand ∧
      (read .other (fun _ => allTextless) e).result = .error (.foreign SocketAddress.noText) ∧
      (read .other (fun _ => allTextless) e).trace.names
        = ["LAZYMC_SERVER_COMMAND", "LAZYMC_PUBLIC_ADDRESS"] :=
  ⟨⟨"x", by decide +kernel, 'x', by decide, by decide⟩, rfl, rfl⟩

end FromEnvironment

end WakeConfig
