import WakeConfig.Proofs.Settings

/-!
# Texts of settings

Which texts of a variable spell which values: words for truth values, decimal digits for numbers,
addresses that resolve, and any text where a text is wanted. `ofText?` is what the reader of a
type makes of a text, and `ofText?_eq_some_iff` says that it finds the value that is spelled and no
other.
-/

namespace WakeConfig

/-! ## Words and digits -/

namespace Coerce

open Text (isDigit digitsValue isWord)

/-- A text is one of the words for a truth value, in any letter case. -/
def IsTruth (s : String) (b : Bool) : Prop :=
  ∃ word ∈ (if b then trueWords else falseWords), isWord word s = true

/-- A text is the decimal digits of a number, perhaps behind a plus sign. -/
def IsDecimal (s : String) (n : Nat) : Prop :=
  ∃ digits : List Char, (s.toList = digits ∨ s.toList = '+' :: digits) ∧ digits ≠ [] ∧
    (∀ d ∈ digits, isDigit d = true) ∧ digitsValue digits = n

theorem isWord_iff {word s : String} :
    isWord word s = true ↔ Text.lower s.toList = word.toList := by
  rw [isWord, beq_iff_eq]

/-- No text is a word for both truth values. -/
theorem IsTruth.unique {s : String} {b b' : Bool} (h : IsTruth s b) (h' : IsTruth s b') :
    b = b' := by
  obtain ⟨word, hword, hs⟩ := h
  obtain ⟨word', hword', hs'⟩ := h'
  have hsame : word = word' := by
    rw [isWord_iff] at hs hs'
    exact String.toList_inj.1 (hs.symm.trans hs')
  subst hsame
  have hdisjoint : ∀ w ∈ trueWords, w ∉ falseWords := by decide
  cases b <;> cases b'
  · rfl
  · exact absurd hword (hdisjoint word hword')
  · exact absurd hword' (hdisjoint word hword)
  · rfl

theorem isTruth_word (b : Bool) : IsTruth (if b then "true" else "false") b := by
  cases b with
  | true => exact ⟨"true", by decide, by decide +kernel⟩
  | false => exact ⟨"false", by decide, by decide +kernel⟩

theorem boolean?_eq_some_iff {s : String} {b : Bool} : boolean? s = some b ↔ IsTruth s b := by
  constructor
  · intro h
    unfold boolean? at h
    split at h
    · rename_i htrue
      obtain rfl := Option.some.inj h
      exact List.any_eq_true.1 htrue
    · split at h
      · rename_i hfalse
        obtain rfl := Option.some.inj h
        exact List.any_eq_true.1 hfalse
      · cases h
  · intro h
    have hany : (if b then trueWords else falseWords).any (fun word => isWord word s) = true :=
      List.any_eq_true.2 h
    unfold boolean?
    cases b with
    | true => exact if_pos hany
    | false =>
      have hnot : ¬ trueWords.any (fun word => isWord word s) = true := by
        intro htrue
        have htruth : IsTruth s true := List.any_eq_true.1 htrue
        cases htruth.unique h
      rw [if_neg hnot]
      exact if_pos hany

/-- Of all texts in front of a plus sign or of none, only one is left when it is dropped. -/
theorem dropPlus_eq {s digits : List Char} (hdigits : ∀ d ∈ digits, isDigit d = true)
    (h : s = digits ∨ s = '+' :: digits) : dropPlus s = digits := by
  rcases h with rfl | rfl
  · cases s with
    | nil => rfl
    | cons c r =>
      have hc : c ≠ '+' := by
        rintro rfl
        exact absurd (hdigits '+' (by simp)) (by decide)
      unfold dropPlus
      split
      · rename_i heq
        exact absurd (List.cons.inj heq).1 hc
      · rfl
  · rfl

theorem eq_or_of_dropPlus (s : List Char) : s = dropPlus s ∨ s = '+' :: dropPlus s := by
  unfold dropPlus
  split
  · exact .inr rfl
  · exact .inl rfl

/-- A number is read exactly where the digits of one in range are written. That digits are rounded
to a double makes no difference below the safe bound. -/
theorem unsigned?_eq_some_iff {max : Int} {n : Nat} {s : String}
    (hmax : max ≤ Binary64.maxSafe) :
    unsigned? max s = some n ↔ IsDecimal s n ∧ (n : Int) ≤ max := by
  unfold unsigned?
  dsimp only
  constructor
  · intro h
    split at h
    · rename_i hdigits
      simp only [Bool.and_eq_true, Bool.not_eq_true', List.isEmpty_eq_false_iff,
        List.all_eq_true] at hdigits
      split at h
      · rename_i m hm
        split at h
        · rename_i hle
          obtain rfl := Option.some.inj h
          have hexact := Binary64.eq_of_nearest?_of_le hm (by omega)
          exact ⟨⟨_, eq_or_of_dropPlus _, hdigits.1, hdigits.2, hexact.symm⟩, hle⟩
        · cases h
      · cases h
    · cases h
  · rintro ⟨⟨digits, hs, hne, hdigits, rfl⟩, hle⟩
    have hround := Binary64.nearest?_of_le (n := digitsValue digits) (by omega)
    have hguard : (!digits.isEmpty && digits.all isDigit) = true := by
      simpa [hne] using hdigits
    rw [dropPlus_eq hdigits hs, if_pos hguard, hround]
    dsimp only
    rw [if_pos hle]

/-! ## Names with commas between them -/

/-- Method names with commas between them are read as the methods they name. -/
theorem methods_joined (ms : List JoinMethod) :
    (list (Text.unescape (",".intercalate (ms.map JoinMethod.name)))).filterMap joinMethod?
      = ms := by
  have hplain : ∀ m : JoinMethod, '\\' ∉ m.name.toList ∧ ',' ∉ m.name.toList ∧
      Text.trim m.name.toList = m.name.toList := by
    intro m
    cases m <;> decide +kernel
  have hname : ∀ m : JoinMethod, joinMethod? m.name = some m := by
    intro m
    cases m <;> decide +kernel
  have htext : (",".intercalate (ms.map JoinMethod.name)).toList
      = [','].intercalate (ms.map fun m => m.name.toList) := by
    rw [String.toList_intercalate, List.map_map]
    rfl
  have hescape : '\\' ∉ [','].intercalate (ms.map fun m => m.name.toList) := by
    intro h
    rcases Text.mem_intercalate h with h | ⟨s, hs, hc⟩
    · exact absurd h (by decide)
    · obtain ⟨m, -, rfl⟩ := List.mem_map.1 hs
      exact (hplain m).1 hc
  rw [list, Text.unescape, String.toList_ofList, htext, Text.decodeEscapes_of_not_mem hescape,
    items]
  by_cases hms : ms = []
  · subst hms
    decide +kernel
  · have hcommas : ∀ s ∈ ms.map fun m => m.name.toList, ',' ∉ s := by
      intro s hs
      obtain ⟨m, -, rfl⟩ := List.mem_map.1 hs
      exact (hplain m).2.1
    rw [List.splitOn_intercalate ',' hcommas (by simpa using hms)]
    simp only [List.map_map, List.filterMap_map, Function.comp_def, (hplain _).2.2,
      String.ofList_toList, hname, List.filterMap_some]

end Coerce

/-! ## Texts of a type -/

namespace SettingType

/-- What the reader of a type makes of a text. -/
def ofText? (answer : String → HostAnswer) : (type : SettingType) → String → Option type.Value
  | text, x => some (Text.unescape x)
  | optionalText, x => some (if x = "" then none else some (Text.unescape x))
  | flag, x => Coerce.boolean? x
  | number max, x => Coerce.unsigned? max x
  | address, x => (SocketAddress.resolve answer x).outcome.toOption
  | methods, x => some ((Coerce.list (Text.unescape x)).filterMap Coerce.joinMethod?)

/-- A text spells a value of a type. Every text spells a text, with its escapes decoded, and a list
of methods, which are those that it names between its commas. -/
def Spells (answer : String → HostAnswer) : (type : SettingType) → String → type.Value → Prop
  | text, x, v => Text.unescape x = v
  | optionalText, x, v => if x = "" then v = none else v = some (Text.unescape x)
  | flag, x, v => Coerce.IsTruth x v
  | number max, x, v => Coerce.IsDecimal x v ∧ v ≤ max
  | address, x, v => (SocketAddress.resolve answer x).outcome = .ok v
  | methods, x, v => (Coerce.list (Text.unescape x)).filterMap Coerce.joinMethod? = v

/-- A type whose numbers are all doubles. -/
def IsExact (type : SettingType) : Prop := ∀ max, type = number max → max ≤ Binary64.maxSafe

theorem ofText?_eq_some_iff {answer : String → HostAnswer} {type : SettingType}
    (h : type.IsExact) {x : String} {v : type.Value} :
    type.ofText? answer x = some v ↔ type.Spells answer x v := by
  cases type with
  | text => simp [ofText?, Spells]
  | optionalText =>
    by_cases hx : x = ""
    · simp [ofText?, Spells, hx, eq_comm]
    · simp [ofText?, Spells, hx, eq_comm]
  | flag => exact Coerce.boolean?_eq_some_iff
  | number max =>
    show Coerce.unsigned? max x = some v ↔ Coerce.IsDecimal x v ∧ v ≤ max
    rw [Coerce.unsigned?_eq_some_iff (Int.ofNat_le.2 (h max rfl)), Int.ofNat_le]
  | address =>
    simp only [ofText?, Spells]
    cases (SocketAddress.resolve answer x).outcome <;> simp [Except.toOption]
  | methods => simp [ofText?, Spells]

end SettingType

/-- The numbers of all settings are doubles. -/
theorem Setting.isExact (s : Setting) : s.type.IsExact := by
  intro max hmax
  cases s <;> cases hmax <;> decide

end WakeConfig
