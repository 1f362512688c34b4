import WakeConfig.Proofs.Json.Scalars
import WakeConfig.Proofs.Spellings

/-!
# Unsigned numbers of a variable

The digits of a variable are rounded to a double before they are compared with the bound of their
setting. As long as the bound is a safe whole number nobody can tell: a number is accepted exactly
when its digits are in range, and it is the number of the digits.
-/

namespace WakeConfig

namespace Binary64

/-- The double nearest to a whole number is under a safe bound only if the number is, and then it
is the number itself. -/
theorem nearest?_le_iff {max : Int} (hmax : max ≤ maxSafe) (n k : Nat) :
    (nearest? n = some k ∧ (k : Int) ≤ max) ↔ (k = n ∧ (n : Int) ≤ max) := by
  constructor
  · rintro ⟨hk, hle⟩
    have hkn : k = n := eq_of_nearest?_of_le hk (by omega)
    exact ⟨hkn, hkn ▸ hle⟩
  · rintro ⟨rfl, hle⟩
    exact ⟨nearest?_of_le (by omega), hle⟩

end Binary64

namespace Coerce

open Text (isDigit digitsValue)

/-- The number of a decimal text by the digits of the library. -/
theorem isDecimal_iff {s : String} {n : Nat} :
    IsDecimal s n ↔ ∃ digits : List Char, (s.toList = digits ∨ s.toList = '+' :: digits) ∧
      digits ≠ [] ∧ (∀ d ∈ digits, isDigit d = true) ∧ Nat.ofDigitChars 10 digits 0 = n := by
  simp only [IsDecimal, Text.digitsValue_eq_ofDigitChars]

/-- Two texts that write the same numbers are read alike. -/
theorem unsigned?_congr {s s' : String} {max : Int} (hmax : max ≤ Binary64.maxSafe)
    (h : ∀ n, IsDecimal s n ↔ IsDecimal s' n) : unsigned? max s = unsigned? max s' := by
  apply Option.ext
  intro n
  rw [unsigned?_eq_some_iff hmax, unsigned?_eq_some_iff hmax, h n]

theorem isDecimal_ofList {digits : List Char} (hne : digits ≠ [])
    (hdigits : ∀ d ∈ digits, isDigit d = true) (n : Nat) :
    IsDecimal (String.ofList digits) n ↔ digitsValue digits = n := by
  constructor
  · rintro ⟨digits', hs, -, hdigits', rfl⟩
    rw [String.toList_ofList] at hs
    have hsame : digits = digits' := by
      rw [← dropPlus_eq hdigits (.inl rfl), dropPlus_eq hdigits' hs]
    rw [hsame]
  · intro hn
    exact ⟨digits, .inl String.toList_ofList, hne, hdigits, hn⟩

/-- Zeros in front of digits make no difference, however many they are. -/
theorem unsigned?_zeros {digits : List Char} {max : Int} (hmax : max ≤ Binary64.maxSafe)
    (hne : digits ≠ []) (hdigits : ∀ d ∈ digits, isDigit d = true) (zeros : Nat) :
    unsigned? max (String.ofList (List.replicate zeros '0' ++ digits))
      = unsigned? max (String.ofList digits) := by
  have hall : ∀ d ∈ List.replicate zeros '0' ++ digits, isDigit d = true := by
    intro d hd
    rcases List.mem_append.1 hd with hd | hd
    · rw [List.eq_of_mem_replicate hd]
      decide
    · exact hdigits d hd
  refine unsigned?_congr hmax fun n => ?_
  rw [isDecimal_ofList (List.append_ne_nil_of_right_ne_nil _ hne) hall,
    isDecimal_ofList hne hdigits, Text.digitsValue_append, Text.digitsValue_zeros, Nat.zero_mul,
    Nat.zero_add]

/-- **Numbers are coerced exactly.** Under a safe bound, the reading of a text is a number exactly
if the text is one or more digits, perhaps behind a plus sign, whose number it is and is not above
the bound; any other text, and one whose number is above the bound, is not read at all. So rounding
to a double brings no number under the bound and changes none that is. -/
theorem unsigned?_exact (s : String) (max : Int) (hmax : max ≤ Binary64.maxSafe) :
    (∀ n : Nat, unsigned? max s = some n ↔
      ∃ digits : List Char, (s.toList = digits ∨ s.toList = '+' :: digits) ∧ digits ≠ [] ∧
        (∀ d ∈ digits, isDigit d = true) ∧ Nat.ofDigitChars 10 digits 0 = n ∧ (n : Int) ≤ max) ∧
    (unsigned? max s = none ↔
      ∀ digits : List Char, (s.toList = digits ∨ s.toList = '+' :: digits) → digits ≠ [] →
        (∀ d ∈ digits, isDigit d = true) → max < Nat.ofDigitChars 10 digits 0) ∧
    (∀ n k : Nat, (Binary64.nearest? n = some k ∧ (k : Int) ≤ max) ↔
      (k = n ∧ (n : Int) ≤ max)) := by
  have hsome : ∀ n : Nat, unsigned? max s = some n ↔
      ∃ digits : List Char, (s.toList = digits ∨ s.toList = '+' :: digits) ∧ digits ≠ [] ∧
        (∀ d ∈ digits, isDigit d = true) ∧ Nat.ofDigitChars 10 digits 0 = n ∧
        (n : Int) ≤ max := by
    intro n
    rw [unsigned?_eq_some_iff hmax, isDecimal_iff]
    constructor
    · rintro ⟨⟨digits, hs, hne, hdigits, hn⟩, hle⟩
      exact ⟨digits, hs, hne, hdigits, hn, hle⟩
    · rintro ⟨digits, hs, hne, hdigits, hn, hle⟩
      exact ⟨⟨digits, hs, hne, hdigits, hn⟩, hle⟩
  refine ⟨hsome, ?_, Binary64.nearest?_le_iff hmax⟩
  constructor
  · intro hnone digits hs hne hdigits
    refine Int.lt_of_not_ge fun hle => ?_
    have := (hsome _).2 ⟨digits, hs, hne, hdigits, rfl, hle⟩
    rw [hnone] at this
    cases this
  · intro h
    refine Option.eq_none_iff_forall_not_mem.2 fun n hn => ?_
    obtain ⟨digits, hs, hne, hdigits, rfl, hle⟩ := (hsome n).1 hn
    exact Int.not_le_of_gt (h digits hs hne hdigits) hle

/-- The largest port is read behind a plus sign and zeros; one more is refused. -/
theorem unsigned?_largest_port :
    unsigned? 65535 "+00065535" = some 65535 ∧ unsigned? 65535 "0065536" = none := by
  have hmax : (65535 : Int) ≤ Binary64.maxSafe := by decide
  constructor
  · refine ((unsigned?_exact "+00065535" 65535 hmax).1 65535).2
      ⟨['0', '0', '0', '6', '5', '5', '3', '5'], .inr (by decide), by simp,
        by simp [isDigit], by decide, by decide⟩
  · refine (unsigned?_exact "0065536" 65535 hmax).2.1.2 fun digits hs hne hdigits => ?_
    rcases hs with rfl | hs
    · have hvalue : Nat.ofDigitChars 10 "0065536".toList 0 = 65536 := by decide
      rw [hvalue]
      decide
    · have hhead : "0065536".toList.head? = some '+' := by rw [hs]; rfl
      exact absurd hhead (by decide)

/-- The bound has to be safe: at `2 ^ 53` the next number is read as its neighbour. -/
example : unsigned? 9007199254740992 "9007199254740993" = some 9007199254740992 := by
  decide +kernel

end Coerce

end WakeConfig
