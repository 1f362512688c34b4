import WakeConfig.Proofs.FileReading
import WakeConfig.Proofs.IntegerFields

/-!
# Texts of a file

A string that a file gives to a setting of text is taken as it is read: nothing is decoded in it,
and nothing in it is taken for a float, unless it begins with the marker of floats.
`texts_as_read` says when a file with such a string has a configuration, and what the setting is in
it.
-/

namespace WakeConfig

open Toml (Value Table Document document? read?)
open Toml.FloatLiteral (isMarked mark)

/-! ## What a table gives after marking -/

namespace FromToml

theorem sectionOf_marked (t : Table) (key : String) :
    sectionOf t.marked key = (sectionOf t key).marked := by
  rw [sectionOf, sectionOf, sectionTable?_marked]
  cases sectionTable? t key with
  | none => exact Table.marked_nil.symm
  | some s => rfl

theorem valueAt?_marked (path : List String) (t : Table) :
    valueAt? path t.marked = (valueAt? path t).map Value.marked := by
  induction path generalizing t with
  | nil => rfl
  | cons key path ih =>
    by_cases hp : path = []
    · subst hp
      exact get?_marked t key
    · rw [valueAt?_cons hp, valueAt?_cons hp, sectionOf_marked, ih]

/-- Marking neither makes a section nor takes one away. -/
theorem isSection_marked {v? : Option Value} :
    IsSection (v?.map Value.marked) ↔ IsSection v? := by
  cases v? with
  | none => simp [IsSection]
  | some v =>
    cases v with
    | float token => rcases Value.marked_float token with h | h <;> simp [IsSection, h]
    | _ => simp [IsSection]

end FromToml

namespace Setting

theorem keysIn_marked (s : Setting) (t : Table) : s.keysIn t.marked = s.keysIn t := by
  have hkey : FromToml.minOnlineKey (FromToml.sectionOf t.marked "time")
      = FromToml.minOnlineKey (FromToml.sectionOf t "time") := by
    rw [FromToml.sectionOf_marked, FromToml.minOnlineKey, FromToml.minOnlineKey,
      FromToml.get?_marked, Option.isSome_map]
  cases s with
  | minOnlineTime => rw [keysIn, keysIn, hkey]
  | _ => rfl

theorem given?_marked (s : Setting) (t : Table) :
    s.given? t.marked = (s.given? t).map Value.marked := by
  rw [given?, given?, keysIn_marked, FromToml.valueAt?_marked]

end Setting

/-! ## Settings of text -/

/-- The type of a setting is text, which a setting of text may also lack. -/
def SettingType.IsText (type : SettingType) : Prop := type = .text ∨ type = .optionalText

/-- A string gives a text unless it begins with the marker, and the text is the string. -/
theorem SettingType.gives_string_iff {type : SettingType} (h : type.IsText)
    {answer : String → HostAnswer} {x : String} {y : type.Value} :
    type.Gives answer (.string x) y ↔ isMarked x = false ∧ type.json? y = some (.string x) := by
  rcases h with rfl | rfl
  · simp only [Gives, json?]
    constructor
    · rintro ⟨⟨⟩, hx⟩
      exact ⟨hx, rfl⟩
    · rintro ⟨hx, hy⟩
      obtain rfl : y = x := by simpa using hy
      exact ⟨rfl, hx⟩
  · simp only [Gives, json?]
    constructor
    · rintro ⟨_, ⟨⟩, hx, rfl⟩
      exact ⟨hx, rfl⟩
    · rintro ⟨hx, hy⟩
      obtain rfl : y = some x := by
        cases y with
        | none => cases hy
        | some y => simpa using hy
      exact ⟨x, rfl, hx, rfl⟩

theorem SettingType.exists_gives_string {type : SettingType} (h : type.IsText)
    (answer : String → HostAnswer) {x : String} (hx : isMarked x = false) :
    ∃ y, type.Gives answer (.string x) y := by
  rcases h with rfl | rfl
  · exact ⟨x, rfl, hx⟩
  · exact ⟨some x, x, rfl, hx, rfl⟩

namespace FromToml

variable {platform : Platform} {resolver : HostResolver} {text : String} {t : Table} {c : Config}

/-- A file has the configuration of its table with its floats marked, if the document survives
marking. -/
theorem parse_eq_ok_iff (hk : (document? text.toList).all Document.keepsStep = true)
    (ht : read? text.toList = some t) :
    (parse platform resolver text).result = .ok c ↔
      (document? text.toList).any Document.survives = true ∧
        (build platform resolver t.marked).result = .ok c := by
  have hsecond : (read? (mark text.toList)).isSome
      = (document? text.toList).any Document.survives := by
    rw [← isSome_table? hk, table?_eq, ht, Option.bind_some]
  rw [← hsecond]
  cases hu : read? (mark text.toList) with
  | some u => simp [parse_eq_build platform resolver hk ht hu]
  | none =>
    have hnone : table? text = none := by rw [table?_eq, ht, Option.bind_some, hu]
    simp [(parse_notToml_iff platform resolver text).2 hnone]

/-- Everything in a file but what it gives to one setting is as it should be: the document survives
marking, there is a start command, sections are tables, and all other settings are given values of
their types. -/
structure RightBut (s : Setting) (resolver : HostResolver) (text : String) (t : Table) :
    Prop where
  survives : (document? text.toList).any Document.survives = true
  command : (Setting.serverCommand.given? t).isSome = true
  sections : ∀ path ∈ Layout.sections, IsSection (valueAt? path t)
  others : ∀ s' : Setting, s' ≠ s → ∀ v ∈ s'.given? t.marked,
    ∃ x, s'.type.Gives (resolver (s'.heard (texts t.marked))) v x

/-- **Strings of a file are taken as they are read.** Let a file give a string to a setting of text,
however it is written. The file has a configuration if and only if all else in it is as it should be
and the string does not begin with the marker of floats; and then the setting is that string. -/
theorem texts_as_read (platform : Platform) (resolver : HostResolver) {text : String} {t : Table}
    (hk : (document? text.toList).all Document.keepsStep = true)
    (ht : read? text.toList = some t) {s : Setting} (hs : s.type.IsText) {x : String}
    (hx : s.given? t = some (.string x)) :
    ((∃ c, (parse platform resolver text).result = .ok c) ↔
      RightBut s resolver text t ∧ isMarked x = false) ∧
    ∀ c, (parse platform resolver text).result = .ok c →
        c.toJson.at? s.keys = some (.string x) := by
  have hgiven : s.given? t.marked = some (.string x) := by
    rw [s.given?_marked, hx, Option.map_some, Value.marked_string]
  have hcommand : (Setting.serverCommand.given? t.marked).isSome
      = (Setting.serverCommand.given? t).isSome := by
    rw [Setting.given?_marked, Option.isSome_map]
  have hsections : (∀ path ∈ Layout.sections, IsSection (valueAt? path t.marked)) ↔
      ∀ path ∈ Layout.sections, IsSection (valueAt? path t) := by
    simp only [valueAt?_marked, isSection_marked]
  refine ⟨?_, fun c hc => ?_⟩
  · simp only [parse_eq_ok_iff hk ht, exists_and_left, exists_build_iff, hcommand, hsections]
    constructor
    · rintro ⟨hsurvives, hcommand, hsections, hgives⟩
      obtain ⟨y, hy⟩ := hgives s _ hgiven
      exact ⟨⟨hsurvives, hcommand, hsections, fun s' _ => hgives s'⟩,
        ((SettingType.gives_string_iff hs).1 hy).1⟩
    · rintro ⟨⟨hsurvives, hcommand, hsections, hothers⟩, hmarked⟩
      refine ⟨hsurvives, hcommand, hsections, fun s' v hv => ?_⟩
      by_cases he : s' = s
      · subst he
        obtain rfl : v = .string x := Option.some.inj (hv.symm.trans hgiven)
        exact SettingType.exists_gives_string hs _ hmarked
      · exact hothers s' he v hv
  · have hbuild := ((parse_eq_ok_iff hk ht).1 hc).2
    have htakes := (build_eq_ok_iff.1 hbuild).2.2.2 s
    rw [hgiven] at htakes
    rw [Config.at?_keys]
    exact ((SettingType.gives_string_iff hs).1 htakes).2

/-- A file that gives the start command in three quotes, over two lines, with a backslash and a
float in it. -/
def literalCommand : String := "[server]\ncommand = '''\na\\n\n1.5'''\n"

/-- The table of the file. -/
def literalCommandTable : Table :=
  [("server", .table .header [("command", .string "a\\n\n1.5")])]

theorem texts_as_read_literalCommand :
    ∃ c, (parse .other (fun _ _ => .addresses []) literalCommand).result = .ok c ∧
      c.toJson.at? ["server", "command"] = some (.string "a\\n\n1.5") := by
  have hk : (document? literalCommand.toList).all Document.keepsStep = true := by decide +kernel
  have ht : read? literalCommand.toList = some literalCommandTable := by decide +kernel
  have hright : RightBut .serverCommand (fun _ _ => .addresses []) literalCommand
      literalCommandTable := by
    refine ⟨by decide +kernel, rfl, fun path hpath v hv => ?_, fun s hs v hv => ?_⟩
    · have hnone : ∀ path ∈ Layout.sections, path ≠ ["server"] →
          (valueAt? path literalCommandTable).isNone = true := by decide +kernel
      by_cases hp : path = ["server"]
      · subst hp
        exact ⟨_, _, (Option.some.inj hv).symm⟩
      · have hempty := hnone path hpath hp
        rw [hv] at hempty
        cases hempty
    · have hnone : ∀ s ∈ Setting.all, s ≠ .serverCommand →
          (s.given? literalCommandTable.marked).isNone = true := by decide +kernel
      have hempty := hnone s s.mem_all hs
      rw [hv] at hempty
      cases hempty
  have hx : Setting.serverCommand.given? literalCommandTable = some (.string "a\\n\n1.5") := rfl
  have hread := texts_as_read .other (fun _ _ => .addresses []) hk ht (.inl rfl) hx
  obtain ⟨c, hc⟩ := hread.1.2 ⟨hright, by decide +kernel⟩
  exact ⟨c, hc, hread.2 c hc⟩

/-- A file whose start command begins with the marker of floats. -/
def markedCommand : String := "[server]\ncommand = \"\\uE000toml-float:x\"\n"

/-- A start command that begins with the marker is refused as a float, though the file gives a
string. -/
theorem texts_as_read_markedCommand :
    ((read? markedCommand.toList).bind Setting.serverCommand.given?).bind Value.text?
      = some "\uE000toml-float:x" ∧
    (parse .other (fun _ _ => .addresses []) markedCommand).result
      = .error (.own (.wrongType "server.command" .string .float)) :=
  ⟨by decide +kernel, by decide +kernel⟩

end FromToml

end WakeConfig
