import WakeConfig.Proofs.FileTexts
import WakeConfig.Proofs.Toml.Untouched
import WakeConfig.Proofs.Variables

/-!
# Files and environments agree

A file and an environment that say the same are read as the same tree. What they say is an
assignment of values to some of the settings; `Assignment.InTable` is a file that holds exactly
these values, and `Assignment.InEnvironment` an environment that writes each of them in the variable
of its setting. `sources_agree` compares the two readers over all assignments.
-/

namespace WakeConfig

open Toml (Value Table mayChange read? document?)
open Toml.FloatLiteral (isMarked mark)

/-! ## Assignments -/

/-- What is assigned to a setting of a type: a value, and the text of an address. -/
abbrev SettingType.Given : SettingType → Type
  | text => String
  | optionalText => String
  | flag => Bool
  | number _ => Nat
  | address => String
  | methods => List JoinMethod

/-- What is assigned to the settings; some have nothing. -/
abbrev Assignment := (s : Setting) → Option s.type.Given

namespace SettingType

/-- The value that is meant by what is assigned. -/
def Means (answer : String → HostAnswer) : (type : SettingType) → type.Given → type.Value → Prop
  | text, x, v => v = x
  | optionalText, x, v => v = some x
  | flag, b, v => v = b
  | number _, n, v => v = n
  | address, x, a => (SocketAddress.resolve answer x).outcome = .ok a
  | methods, ms, v => v = ms

/-- What may be assigned: no string that stands for a float, no empty string where that clears a
setting, no number out of range, and no address that does not resolve. -/
def Admits (answer : String → HostAnswer) : (type : SettingType) → type.Given → Prop
  | text, x => isMarked x = false
  | optionalText, x => isMarked x = false ∧ x ≠ ""
  | flag, _ => True
  | number max, n => n ≤ max
  | address, x => isMarked x = false ∧ ∃ a, (SocketAddress.resolve answer x).outcome = .ok a
  | methods, _ => True

/-- What is assigned, as a value of a file. -/
def toToml : (type : SettingType) → type.Given → Toml.Value
  | text, x => .string x
  | optionalText, x => .string x
  | flag, b => .boolean b
  | number _, n => .integer n false
  | address, x => .string x
  | methods, ms => .array (ms.map fun m => .string m.name)

/-- The text of a variable writes what is assigned. A string may be written with escapes, and a
number with leading zeros. -/
def Writes : (type : SettingType) → type.Given → String → Prop
  | text, x, written => Text.unescape written = x
  | optionalText, x, written => Text.unescape written = x
  | flag, b, written => written = if b then "true" else "false"
  | number _, n, written => written ≠ "" ∧ (∀ d ∈ written.toList, Text.isDigit d = true) ∧
      Text.digitsValue written.toList = n
  | address, x, written => written = x
  | methods, ms, written => written = ",".intercalate (ms.map JoinMethod.name)

/-- The text for which a name may be looked up. -/
def addressText? : (type : SettingType) → type.Given → Option String
  | address, x => some x
  | _, _ => none

end SettingType

namespace Assignment

/-- The addresses that are assigned. -/
def addresses (a : Assignment) (s : Setting) : Option String := (a s).bind s.type.addressText?

/-- Every setting may be assigned what it is, and the start command is not blank. -/
structure IsValid (resolver : HostResolver) (a : Assignment) : Prop where
  command : IsCommand (a .serverCommand)
  admits : ∀ s : Setting, ∀ x ∈ a s, s.type.Admits (resolver (s.heard a.addresses)) x

/-- A table holds exactly what is assigned: nothing but sections is in it otherwise. -/
structure InTable (a : Assignment) (t : Table) : Prop where
  given : ∀ s : Setting, s.given? t = (a s).map s.type.toToml
  nothingElse : ∀ path, ∀ v ∈ FromToml.valueAt? path t,
    (path ∈ Layout.sections ∧ ∃ origin entries, v = .table origin entries) ∨
      ∃ s : Setting, path = s.keysIn t

/-- An environment writes what is assigned, each in the variable of its setting, and leaves the
variables of all other settings unset. -/
structure InEnvironment (a : Assignment) (e : Environment) : Prop where
  unset : ∀ s : Setting, a s = none → e.get? s.variableName = none
  written : ∀ s : Setting, ∀ x ∈ a s, ∃ text, e.get? s.variableName = some text ∧
    s.type.Writes x text

/-- A value of a setting is the one that is assigned, or else the default. -/
def Describes (platform : Platform) (resolver : HostResolver) (a : Assignment) (c : Config) :
    Prop :=
  c.path = none ∧ ∀ s : Setting, (a s = none → s.get c = s.default platform) ∧
    ∀ x ∈ a s, s.type.Means (resolver (s.heard a.addresses)) x (s.get c)

end Assignment

/-! ## Assigned values -/

namespace SettingType

variable {answer : String → HostAnswer} {type : SettingType} {x : type.Given}

theorem text?_toToml (h : type = .address) (x : type.Given) :
    (type.toToml x).text? = type.addressText? x := by
  subst h
  rfl

theorem addressText?_of_writes (h : type = .address) {text : String} (hw : type.Writes x text) :
    type.addressText? x = some text := by
  subst h
  exact congrArg some hw.symm

/-- An address is written by a text that resolves. -/
theorem exists_address_of_writes (h : type = .address) {text : String}
    (hx : type.Admits answer x) (hw : type.Writes x text) :
    ∃ a, (SocketAddress.resolve answer text).outcome = .ok a := by
  subst h
  obtain rfl := hw
  exact hx.2

/-- One value at most is meant. -/
theorem Means.unique {v v' : type.Value} (h : type.Means answer x v) (h' : type.Means answer x v') :
    v = v' := by
  cases type with
  | address => exact Except.ok.inj (h.symm.trans h')
  | _ => exact h.trans h'.symm

/-- A text that writes what is assigned spells the value that is meant. -/
theorem spells_of_writes {text : String} (hx : type.Admits answer x) (hw : type.Writes x text) :
    ∃ v, type.Means answer x v ∧ type.Spells answer text v := by
  cases type with
  | text => exact ⟨x, rfl, hw⟩
  | optionalText =>
    have htext : text ≠ "" := by
      rintro rfl
      exact hx.2 hw.symm
    refine ⟨some x, rfl, ?_⟩
    rw [Spells, if_neg htext]
    exact congrArg some hw.symm
  | flag =>
    obtain rfl := hw
    exact ⟨x, rfl, Coerce.isTruth_word x⟩
  | number max =>
    obtain ⟨hne, hdigits, hvalue⟩ := hw
    have hlist : text.toList ≠ [] := by simpa using hne
    exact ⟨x, rfl, ⟨text.toList, .inl rfl, hlist, hdigits, hvalue⟩, hx⟩
  | address =>
    obtain rfl := hw
    obtain ⟨-, a, ha⟩ := hx
    exact ⟨a, ha, ha⟩
  | methods =>
    obtain rfl := hw
    exact ⟨x, rfl, Coerce.methods_joined x⟩

/-- What is assigned gives a setting the value that is meant. -/
theorem gives_toToml {v : type.Value} (hx : type.Admits answer x)
    (hv : type.Means answer x v) : type.Gives answer (type.toToml x) v := by
  cases type with
  | text =>
    obtain rfl := hv
    exact ⟨rfl, hx⟩
  | optionalText => exact ⟨x, rfl, hx.1, hv⟩
  | flag =>
    obtain rfl := hv
    rfl
  | number max =>
    obtain rfl := hv
    exact ⟨.inl ⟨false, rfl⟩, hx⟩
  | address => exact ⟨x, rfl, hx.1, hv⟩
  | methods =>
    obtain rfl := hv
    rfl

theorem marked_toToml (type : SettingType) (x : type.Given) :
    (type.toToml x).marked = type.toToml x := by
  cases type <;> simp [toToml]

theorem not_isTouched_toToml (type : SettingType) (x : type.Given) :
    ¬ (type.toToml x).IsTouched := by
  cases type with
  | methods =>
    rw [toToml, Value.isTouched_array]
    rintro ⟨v, hv, htouched⟩
    obtain ⟨m, -, rfl⟩ := List.mem_map.1 hv
    cases htouched
  | _ =>
    intro h
    cases h

end SettingType

/-! ## Tables without anything that marking touches -/

namespace FromToml

variable {t : Table}

/-- What marking touches in a table is under a path: a key of the path, or a value that is no
section. -/
theorem exists_path_of_isTouched (h : t.IsTouched) : ∃ path v, valueAt? path t = some v ∧
    ((∃ name ∈ path, mayChange name = true) ∨
      (v.IsTouched ∧ ∀ origin entries, v ≠ .table origin entries)) := by
  suffices hvalue : ∀ w : Value, w.IsTouched → ∀ origin t, w = .table origin t →
      ∃ path v, valueAt? path t = some v ∧
        ((∃ name ∈ path, mayChange name = true) ∨
          (v.IsTouched ∧ ∀ origin entries, v ≠ .table origin entries)) by
    exact hvalue _ h _ _ rfl
  intro w hw
  induction hw with
  | @name _ t key v hv hk =>
    rintro _ _ ⟨⟩
    exact ⟨[key], v, hv, .inl ⟨key, List.mem_cons_self, hk⟩⟩
  | @entry _ t key v hv hv' ih =>
    rintro _ _ ⟨⟩
    by_cases htable : ∃ origin entries, v = .table origin entries
    · obtain ⟨origin, entries, rfl⟩ := htable
      obtain ⟨path, x, hx, hpath⟩ := ih origin entries rfl
      have hp : path ≠ [] := by
        rintro rfl
        cases hx
      have hsection : sectionOf t key = entries := by rw [sectionOf, sectionTable?, hv]; rfl
      refine ⟨key :: path, x, by rw [valueAt?_cons hp, hsection, hx], ?_⟩
      refine hpath.imp_left ?_
      rintro ⟨name, hname, hk⟩
      exact ⟨name, List.mem_cons_of_mem _ hname, hk⟩
    · exact ⟨[key], v, hv, .inr ⟨hv', fun origin entries h => htable ⟨origin, entries, h⟩⟩⟩
  | _ => rintro _ _ ⟨⟩

/-- A file whose table has nothing that marking touches has the tree of its table. -/
theorem parse_of_not_isTouched (platform : Platform) (resolver : HostResolver) {text : String}
    (h : read? text.toList = some t) (ht : ¬ t.IsTouched) :
    parse platform resolver text = build platform resolver t.marked := by
  obtain ⟨d, hd, hdt⟩ := exists_document h
  obtain ⟨hkeeps, hfixed, heven⟩ := Toml.Document.steady_of_not_isTouched hdt ht
  have hsurvives : d.survives = true := by
    rw [Toml.Document.survives_of_isFixed hfixed, hdt, heven]
    rfl
  obtain ⟨u, hu⟩ : ∃ u, read? (mark text.toList) = some u := by
    rw [← Option.isSome_iff_exists, isSome_read?_mark hd hdt hkeeps, hsurvives]
  exact parse_eq_build platform resolver (by rw [hd]; exact hkeeps) h hu

end FromToml

/-- Marking changes no key of a section. -/
theorem Layout.sections_known : ∀ path ∈ sections, ∀ name ∈ path, mayChange name = false := by
  decide +kernel

namespace Setting

/-- The keys of settings are not those of sections, and marking changes none of them. -/
theorem keysIn_known (s : Setting) (t : Table) :
    s.keysIn t ∉ Layout.sections ∧ ∀ name ∈ s.keysIn t, mayChange name = false := by
  have hknown : ∀ s ∈ all,
      s.keys ∉ Layout.sections ∧ ∀ name ∈ s.keys, mayChange name = false := by
    decide +kernel
  cases s with
  | minOnlineTime =>
    -- its second name is the key of no setting
    rw [keysIn, FromToml.minOnlineKey]
    split <;> decide +kernel
  | _ => exact hknown _ (mem_all _)

end Setting

/-! ## Agreement -/

namespace Assignment

variable {a : Assignment} {platform : Platform} {resolver : HostResolver} {t : Table}
  {e : Environment} {c : Config}

/-- An assignment leaves nothing of a configuration open. -/
theorem Describes.unique {c' : Config} (h : a.Describes platform resolver c)
    (h' : a.Describes platform resolver c') : c = c' := by
  refine Config.eq_of_get h.1 h'.1 fun s => ?_
  cases hs : a s with
  | none => rw [(h.2 s).1 hs, (h'.2 s).1 hs]
  | some x => exact ((h.2 s).2 x hs).unique ((h'.2 s).2 x hs)

theorem InTable.section_or_given (h : a.InTable t) {path : List String} {v : Value}
    (hv : FromToml.valueAt? path t = some v) :
    (path ∈ Layout.sections ∧ ∃ origin entries, v = .table origin entries) ∨
      ∃ (s : Setting) (x : s.type.Given), path = s.keysIn t ∧ v = s.type.toToml x := by
  rcases h.nothingElse path v hv with hsection | ⟨s, rfl⟩
  · exact .inl hsection
  · obtain ⟨x, -, hx⟩ := Option.map_eq_some_iff.1 ((h.given s).symm.trans hv)
    exact .inr ⟨s, x, rfl, hx.symm⟩

/-- Marking touches nothing in a table that holds what is assigned. -/
theorem InTable.not_isTouched (h : a.InTable t) : ¬ t.IsTouched := by
  intro htouched
  obtain ⟨path, v, hv, hpath⟩ := FromToml.exists_path_of_isTouched htouched
  have hnames : ∀ name ∈ path, mayChange name = false := by
    rcases h.section_or_given hv with ⟨hmem, -⟩ | ⟨s, -, rfl, -⟩
    · exact Layout.sections_known path hmem
    · exact (s.keysIn_known t).2
  rcases hpath with ⟨name, hname, hk⟩ | ⟨hv', htable⟩
  · rw [hnames name hname] at hk
    cases hk
  · rcases h.section_or_given hv with ⟨-, origin, entries, rfl⟩ | ⟨s, x, -, rfl⟩
    · exact htable origin entries rfl
    · exact s.type.not_isTouched_toToml x hv'

theorem InTable.isSection (h : a.InTable t) {path : List String} (hp : path ∈ Layout.sections) :
    FromToml.IsSection (FromToml.valueAt? path t) := by
  intro v hv
  rcases h.nothingElse path v hv with ⟨-, hsection⟩ | ⟨s, rfl⟩
  · exact hsection
  · exact absurd hp (s.keysIn_known t).1

theorem InTable.given?_marked (h : a.InTable t) (s : Setting) :
    s.given? t.marked = (a s).map s.type.toToml := by
  rw [Setting.given?_marked, h.given, Option.map_map]
  exact congrArg (Option.map · _) (funext fun x => s.type.marked_toToml x)

/-- The names that are looked up for a file are those for the addresses that are assigned. -/
theorem InTable.heard_texts (h : a.InTable t) (s : Setting) :
    s.heard (FromToml.texts t.marked) = s.heard a.addresses := by
  refine Setting.heard_congr (fun s hs => ?_) s
  rw [FromToml.texts, h.given?_marked, addresses]
  cases a s with
  | none => rfl
  | some x => exact SettingType.text?_toToml hs x

/-- The names that are looked up for an environment are those for the addresses that are
assigned. -/
theorem InEnvironment.heard_text? (h : a.InEnvironment e) (s : Setting) :
    s.heard (Reader.Source.text? ⟨e, resolver, platform⟩) = s.heard a.addresses := by
  refine Setting.heard_congr (fun s hs => ?_) s
  rw [Reader.Source.text?, addresses]
  cases hx : a s with
  | none => exact h.unset s hx
  | some x =>
    obtain ⟨text, htext, hwrites⟩ := h.written s x hx
    rw [htext, Option.bind_some, SettingType.addressText?_of_writes hs hwrites]

theorem InEnvironment.hasCommand (h : a.InEnvironment e) (ha : IsCommand (a .serverCommand)) :
    e.HasCommand := by
  obtain ⟨x, hx, c, hc, hblank⟩ := ha
  obtain ⟨text, htext, hwrites⟩ := h.written .serverCommand x hx
  obtain rfl : Text.unescape text = x := hwrites
  rw [Environment.HasCommand, ← Setting.variableName_serverCommand, htext]
  exact isCommand_of_unescape ⟨_, rfl, c, hc, hblank⟩

/-- An address that resolves raises no error. -/
theorem InEnvironment.quiet (h : a.InEnvironment e) (ha : a.IsValid resolver) (s : Setting)
    (raised : LookupError) : ¬ Reader.Source.Raises ⟨e, resolver, platform⟩ s raised := by
  rintro ⟨htype, text, htext, hraises⟩
  rw [h.heard_text?] at hraises
  cases hx : a s with
  | none =>
    rw [Reader.Source.text?, h.unset s hx] at htext
    cases htext
  | some x =>
    obtain ⟨text', htext', hwrites⟩ := h.written s x hx
    obtain rfl : text' = text := Option.some.inj (htext'.symm.trans htext)
    obtain ⟨b, hb⟩ := SettingType.exists_address_of_writes htype (ha.admits s x hx) hwrites
    rw [SocketAddress.resolve_eq_foreign_iff.2 hraises] at hb
    cases hb

/-- What an environment writes is what it describes. -/
theorem InEnvironment.describes (h : a.InEnvironment e) (ha : a.IsValid resolver) :
    a.Describes platform resolver (FromEnvironment.described ⟨e, resolver, platform⟩) := by
  refine ⟨rfl, fun s => ?_⟩
  have hvalue : s.get (FromEnvironment.described ⟨e, resolver, platform⟩)
      = s.type.ofVariable (resolver (s.heard a.addresses)) (s.default platform)
        (e.get? s.variableName) := by
    rw [FromEnvironment.described, Config.get_ofSettings, h.heard_text?]
    rfl
  have hdecodes := s.decodes_ofVariable platform (resolver (s.heard a.addresses))
  rw [hvalue]
  constructor
  · intro hs
    rw [h.unset s hs]
    exact hdecodes.unset
  · intro x hx
    obtain ⟨text, htext, hwrites⟩ := h.written s x hx
    obtain ⟨v, hmeans, hspells⟩ := SettingType.spells_of_writes (ha.admits s x hx) hwrites
    rw [htext, hdecodes.spelled text v hspells]
    exact hmeans

/-- A table that holds what is assigned has every configuration that is described. -/
theorem InTable.build_marked (h : a.InTable t) (ha : a.IsValid resolver)
    (hc : a.Describes platform resolver c) :
    (FromToml.build platform resolver t.marked).result = .ok c := by
  refine FromToml.build_eq_ok_iff.2 ⟨hc.1, ?_, ?_, fun s => ?_⟩
  · obtain ⟨x, hx, -⟩ := ha.command
    rw [h.given?_marked, Option.isSome_map, hx]
    rfl
  · intro path hp
    rw [FromToml.valueAt?_marked]
    intro v hv
    obtain ⟨w, hw, rfl⟩ := Option.map_eq_some_iff.1 hv
    obtain ⟨origin, entries, rfl⟩ := h.isSection hp w hw
    exact ⟨origin, _, Value.marked_table origin entries⟩
  · rw [h.heard_texts, h.given?_marked]
    cases hs : a s with
    | none => exact (hc.2 s).1 hs
    | some x => exact SettingType.gives_toToml (ha.admits s x hs) ((hc.2 s).2 x hs)

end Assignment

/-- **A file and an environment that say the same are read as the same tree.** Take any assignment
of values to settings in which there is a start command that is not blank, and every value may be
assigned to its setting. Then every file that holds exactly these values and every environment that
writes them have the same configuration, the one that the assignment describes: each setting has
what is assigned to it, an address as it resolves, and its default where nothing is. -/
theorem sources_agree (platform : Platform) (resolver : HostResolver) {a : Assignment}
    (ha : a.IsValid resolver) {text : String} {t : Table} (htext : read? text.toList = some t)
    (ht : a.InTable t) {e : Environment} (he : a.InEnvironment e) :
    ∃ c, (FromToml.parse platform resolver text).result = .ok c ∧
      (FromEnvironment.read platform resolver e).result = .ok c ∧
      a.Describes platform resolver c ∧ ∀ c', a.Describes platform resolver c' → c' = c := by
  have hdescribes : a.Describes platform resolver _ := he.describes ha
  refine ⟨_, ?_, ?_, hdescribes, fun c' h => h.unique hdescribes⟩
  · rw [FromToml.parse_of_not_isTouched platform resolver htext ht.not_isTouched]
    exact ht.build_marked ha hdescribes
  · rw [FromEnvironment.read_of_quiet (he.hasCommand ha.command) (he.quiet ha)]

/-- Three values: a start command of two lines, an address and a number. -/
def threeValues : Assignment
  | .serverCommand => some "a\nb"
  | .serverAddress => some "h:1"
  | .startTimeout => some (9 : Nat)
  | _ => none

/-- A file that holds the three values. -/
def threeValuesFile : String :=
  "[server]\ncommand = \"a\\nb\"\naddress = 'h:1'\nstart_timeout = 0x9\n"

/-- The table of the file. -/
def threeValuesTable : Table :=
  [("server", .table .header
      [("command", .string "a\nb"), ("address", .string "h:1"),
       ("start_timeout", .integer 9 false)])]

/-- An environment that writes the three values. -/
def threeVariables : Environment :=
  ⟨[("LAZYMC_SERVER_COMMAND", "a\\nb"), ("LAZYMC_SERVER_ADDRESS", "h:1"),
    ("LAZYMC_SERVER_START_TIMEOUT", "09")]⟩

theorem sources_agree_threeValues :
    ∃ c, (FromToml.parse .other (fun _ _ => .addresses ["::1"]) threeValuesFile).result = .ok c ∧
      (FromEnvironment.read .other (fun _ _ => .addresses ["::1"]) threeVariables).result = .ok c ∧
      Setting.startTimeout.get c = (9 : Nat) ∧
      Setting.stopTimeout.get c = Setting.stopTimeout.default .other := by
  have hvalid : threeValues.IsValid fun _ _ => .addresses ["::1"] := by
    refine ⟨⟨"a\nb", rfl, 'a', by decide +kernel, by decide⟩, fun s x hx => ?_⟩
    cases s with
    | serverCommand =>
      obtain rfl := Option.some.inj hx
      exact (by decide +kernel : isMarked "a\nb" = false)
    | serverAddress =>
      obtain rfl := Option.some.inj hx
      exact ⟨by decide +kernel, exists_ok (by decide +kernel)⟩
    | startTimeout =>
      obtain rfl := Option.some.inj hx
      exact (by decide : 9 ≤ Default.maxU32)
    | _ => cases hx
  have htext : read? threeValuesFile.toList = some threeValuesTable := by decide +kernel
  have htable : threeValues.InTable threeValuesTable := by
    refine ⟨fun s => by cases s <;> rfl, fun path v hv => ?_⟩
    obtain ⟨key, w, hmem, hw⟩ := FromToml.exists_entry hv
    obtain ⟨rfl, rfl⟩ := Prod.mk.inj (List.mem_singleton.1 hmem)
    rcases hw with ⟨rfl, rfl⟩ | ⟨rest, _, _, rfl, ⟨⟩, hrest⟩
    · exact .inl ⟨by decide, _, _, rfl⟩
    · obtain ⟨key, w, hmem, hw⟩ := FromToml.exists_entry hrest
      simp only [List.mem_cons, Prod.mk.injEq, List.not_mem_nil, or_false] at hmem
      rcases hmem with ⟨rfl, rfl⟩ | ⟨rfl, rfl⟩ | ⟨rfl, rfl⟩
      · rcases hw with ⟨rfl, -⟩ | ⟨_, _, _, -, ⟨⟩, -⟩
        exact .inr ⟨.serverCommand, rfl⟩
      · rcases hw with ⟨rfl, -⟩ | ⟨_, _, _, -, ⟨⟩, -⟩
        exact .inr ⟨.serverAddress, rfl⟩
      · rcases hw with ⟨rfl, -⟩ | ⟨_, _, _, -, ⟨⟩, -⟩
        exact .inr ⟨.startTimeout, rfl⟩
  have henvironment : threeValues.InEnvironment threeVariables := by
    constructor
    · intro s hs
      have hunset : ∀ s ∈ Setting.all, (threeValues s).isNone = true →
          threeVariables.get? s.variableName = none := by decide +kernel
      exact hunset s s.mem_all (by rw [hs]; rfl)
    · intro s x hx
      cases s with
      | serverCommand =>
        obtain rfl := Option.some.inj hx
        exact ⟨"a\\nb", by decide +kernel, (by decide +kernel : Text.unescape "a\\nb" = "a\nb")⟩
      | serverAddress =>
        obtain rfl := Option.some.inj hx
        exact ⟨"h:1", by decide +kernel, rfl⟩
      | startTimeout =>
        obtain rfl := Option.some.inj hx
        have hdigits : "09".toList.all Text.isDigit = true := by decide +kernel
        exact ⟨"09", by decide +kernel, by decide, List.all_eq_true.1 hdigits, by decide +kernel⟩
      | _ => cases hx
  obtain ⟨c, hfile, hvariables, ⟨-, hgiven⟩, -⟩ :=
    sources_agree .other _ hvalid htext htable henvironment
  exact ⟨c, hfile, hvariables, (hgiven .startTimeout).2 _ rfl, (hgiven .stopTimeout).1 rfl⟩

end WakeConfig
