import Mathlib.Data.Nat.Digits.Defs
import WakeConfig.Text.Json.Printer
import WakeConfig.Text.Json.Reader

/-!
# Strings and numbers read back

The written form of a string is read as that string whatever characters are in it, and that of a
number as that number, whether it is written positionally or with an exponent.
-/

namespace WakeConfig

open Text (isDigit digitsValue)

variable {c : Char} {s ds rest : List Char} {n scale : Nat}

/-! ## Digits -/

namespace Text

theorem digitsValue_eq_ofDigitChars (ds : List Char) :
    digitsValue ds = Nat.ofDigitChars 10 ds 0 := by
  rw [Nat.ofDigitChars_eq_foldl, digitsValue]
  congr 1
  funext n d
  rw [Nat.mul_comm]
  rfl

theorem digitsValue_append (s ds : List Char) :
    digitsValue (s ++ ds) = digitsValue s * 10 ^ ds.length + digitsValue ds := by
  simp only [digitsValue_eq_ofDigitChars]
  rw [Nat.ofDigitChars_append, Nat.ofDigitChars_eq_ofDigitChars_zero, Nat.mul_comm]

theorem digitsValue_zeros (n : Nat) : digitsValue (List.replicate n '0') = 0 := by
  rw [digitsValue_eq_ofDigitChars, Nat.ofDigitChars_replicate_zero, Nat.mul_zero]

theorem digitsValue_toDigits (n : Nat) : digitsValue (Nat.toDigits 10 n) = n := by
  rw [digitsValue_eq_ofDigitChars, Nat.ofDigitChars_ten_toDigits]

theorem isDigit_of_mem_toDigits (h : c ∈ Nat.toDigits 10 n) : isDigit c = true := by
  have hd := Nat.isDigit_of_mem_toDigits (by decide) (by decide) h
  simpa [Char.isDigit, isDigit, Char.le_def] using hd

/-- The digits of a number do not start with a zero unless the number is zero. -/
theorem head?_toDigits (hn : n ≠ 0) : (Nat.toDigits 10 n).head? ≠ some '0' := by
  induction n using Nat.strongRecOn with
  | ind n ih =>
    by_cases hlt : n < 10
    · rw [Nat.toDigits_of_lt_base hlt]
      simpa [Nat.digitChar_eq_zero] using hn
    · obtain ⟨d, ds, hds⟩ := List.exists_cons_of_ne_nil (Nat.toDigits_ne_nil (n := n / 10))
      have hd := ih (n / 10) (by omega) (by omega)
      rw [Nat.toDigits_of_base_le (by decide) (Nat.le_of_not_lt hlt), hds]
      rwa [hds] at hd

end Text

/-! ## Decimal numbers -/

namespace Decimal

/-- A factor of ten does not change a number. -/
theorem scaled_mul_ten (n scale : Int) : scaled (n * 10) (scale + 1) = scaled n scale := by
  match scale with
  | .ofNat scale => exact ofFraction_mul_ten n scale
  | .negSucc 0 => rfl
  | .negSucc (zeros + 1) =>
    have hscale : Int.negSucc (zeros + 1) + 1 = Int.negSucc zeros := by omega
    rw [hscale]
    have hpow : (10 : Int) * Int.ofNat (Nat.pow 10 (zeros + 1))
        = Int.ofNat (Nat.pow 10 (zeros + 2)) := by
      have : Nat.pow 10 (zeros + 2) = Nat.pow 10 (zeros + 1) * 10 := rfl
      rw [this]
      simp [Int.mul_comm]
    simp only [scaled, Int.mul_assoc, hpow]

theorem scaled_mul_pow (n scale : Int) (zeros : Nat) :
    scaled (n * 10 ^ zeros) (scale + zeros) = scaled n scale := by
  induction zeros with
  | zero => simp
  | succ zeros ih =>
    rw [Int.pow_succ, ← Int.mul_assoc, Int.natCast_succ, ← Int.add_assoc, scaled_mul_ten, ih]

end Decimal

namespace Json.Reader

/-! ## Reading digits -/

/-- A text behind a number: it does not go on with the number. -/
def EndsNumber (rest : List Char) : Prop :=
  ∀ c ∈ rest.head?, isDigit c = false ∧ c ≠ '.' ∧ c ≠ 'e' ∧ c ≠ 'E'

theorem digits_append (hds : ∀ c ∈ ds, isDigit c = true) (hne : ds ≠ [])
    (hrest : ∀ c ∈ rest.head?, isDigit c = false) : digits (ds ++ rest) = some (ds, rest) := by
  have hnone : rest.takeWhile isDigit = [] ∧ rest.dropWhile isDigit = rest := by
    cases rest with
    | nil => exact ⟨rfl, rfl⟩
    | cons c rest => simp [hrest c rfl]
  rw [digits, List.takeWhile_append_of_pos hds, List.dropWhile_append_of_pos hds, hnone.1, hnone.2,
    List.append_nil, if_neg (by simpa using hne)]

theorem whole_append (hds : ∀ c ∈ ds, isDigit c = true) (hne : ds ≠ [])
    (hzero : ds.head? = some '0' → ds.length ≤ 1)
    (hrest : ∀ c ∈ rest.head?, isDigit c = false) : whole (ds ++ rest) = some (ds, rest) := by
  rw [whole, digits_append hds hne hrest]
  split
  · rename_i h
    cases h
    have := hzero rfl
    simp at this
  · rfl

/-- Digits behind a point are read as they are written: without any there is no point. -/
theorem fraction_written (hds : ∀ c ∈ ds, isDigit c = true)
    (hrest : ∀ c ∈ rest.head?, isDigit c = false ∧ c ≠ '.') :
    fraction ((if ds.isEmpty then [] else '.' :: ds) ++ rest) = some (ds, rest) := by
  cases ds with
  | nil =>
    show fraction rest = _
    unfold fraction
    split
    · exact absurd rfl (hrest '.' rfl).2
    · rfl
  | cons d ds => exact digits_append hds (List.cons_ne_nil d ds) fun c hc => (hrest c hc).1

theorem exponent_of_endsNumber (hrest : EndsNumber rest) : exponent rest = some (0, rest) := by
  unfold exponent
  split
  · exact absurd rfl (hrest 'e' rfl).2.2.1
  · exact absurd rfl (hrest 'E' rfl).2.2.2
  · rfl

/-- An exponent is written with its sign. -/
theorem exponent_written (e : Int) (hrest : EndsNumber rest) :
    exponent ('e' :: ((if e < 0 then '-' else '+') :: (Nat.toDigits 10 e.natAbs ++ rest)))
      = some (e, rest) := by
  have hdigits := digits_append (fun _ hc => Text.isDigit_of_mem_toDigits hc)
    (Nat.toDigits_ne_nil (n := e.natAbs)) fun c hc => (hrest c hc).1
  show exponentDigits _ = _
  by_cases he : e < 0
  · have hvalue : -(e.natAbs : Int) = e := by omega
    rw [if_pos he, exponentDigits, hdigits, Option.map_some]
    dsimp only
    rw [Text.digitsValue_toDigits, hvalue]
  · have hvalue : (e.natAbs : Int) = e := by omega
    rw [if_neg he, exponentDigits, hdigits, Option.map_some]
    dsimp only
    rw [Text.digitsValue_toDigits, hvalue]

/-- A number without its sign is read from its digits before and behind the point, and from its
exponent. -/
theorem magnitude_written (before behind : List Char) {tail : List Char} {e : Int}
    (hbefore : ∀ c ∈ before, isDigit c = true) (hne : before ≠ [])
    (hzero : before.head? = some '0' → before.length ≤ 1)
    (hbehind : ∀ c ∈ behind, isDigit c = true)
    (htail : ∀ c ∈ tail.head?, isDigit c = false ∧ c ≠ '.') (he : exponent tail = some (e, rest)) :
    magnitude (before ++ ((if behind.isEmpty then [] else '.' :: behind) ++ tail))
      = some ((digitsValue (before ++ behind), behind.length - e), rest) := by
  have hwhole : whole (before ++ ((if behind.isEmpty then [] else '.' :: behind) ++ tail))
      = some (before, (if behind.isEmpty then [] else '.' :: behind) ++ tail) := by
    refine whole_append hbefore hne hzero ?_
    cases behind with
    | nil => exact fun c hc => (htail c hc).1
    | cons d behind =>
      intro c hc
      cases hc
      rfl
  rw [magnitude, hwhole]
  dsimp only
  rw [fraction_written hbehind htail]
  dsimp only
  rw [he]
  rfl

/-! ## Reading the digits of a number -/

/-- Digits with a point before the last `scale` of them are read as those digits, with or without
zeros in front. -/
theorem magnitude_positional (hds : ∀ c ∈ ds, isDigit c = true)
    (hzero : ds.head? = some '0' → ds.length ≤ 1) (scale : Nat) (hrest : EndsNumber rest) :
    magnitude (Decimal.positional ds scale ++ rest)
      = some ((digitsValue ds, (scale : Int)), rest) := by
  obtain ⟨padded, hpadded⟩ : ∃ padded,
      padded = List.replicate (scale + 1 - ds.length) '0' ++ ds := ⟨_, rfl⟩
  obtain ⟨whole, hwhole⟩ : ∃ whole, whole = padded.length - scale := ⟨_, rfl⟩
  have hlength : padded.length = (scale + 1 - ds.length) + ds.length := by
    rw [hpadded, List.length_append, List.length_replicate]
  have hdigits : ∀ c ∈ padded, isDigit c = true := by
    intro c hc
    rw [hpadded] at hc
    rcases List.mem_append.1 hc with hc | hc
    · rw [(List.mem_replicate.1 hc).2]
      rfl
    · exact hds c hc
  have hvalue : digitsValue padded = digitsValue ds := by
    rw [hpadded, Text.digitsValue_append, Text.digitsValue_zeros, Nat.zero_mul, Nat.zero_add]
  have hbefore : (padded.take whole).length = whole := by
    rw [List.length_take]
    omega
  have hbehind : (padded.drop whole).length = scale := by
    rw [List.length_drop]
    omega
  have hpoint : (if scale = 0 then [] else '.' :: padded.drop whole)
      = if (padded.drop whole).isEmpty then [] else '.' :: padded.drop whole := by
    by_cases hs : scale = 0
    · rw [if_pos hs, List.eq_nil_of_length_eq_zero (hbehind.trans hs)]
      rfl
    · rw [if_neg hs, if_neg]
      intro h
      rw [List.isEmpty_iff.1 h] at hbehind
      exact hs hbehind.symm
  have hmagnitude := magnitude_written (padded.take whole) (padded.drop whole)
    (fun c hc => hdigits c (List.mem_of_mem_take hc)) ?_ ?_
    (fun c hc => hdigits c (List.mem_of_mem_drop hc))
    (fun c hc => ⟨(hrest c hc).1, (hrest c hc).2.1⟩) (exponent_of_endsNumber hrest)
  · rw [List.take_append_drop, hvalue, hbehind, Int.sub_zero] at hmagnitude
    rw [Decimal.positional, ← hpadded, ← hwhole, hpoint,
      List.append_assoc, hmagnitude]
  · intro h
    rw [h] at hbefore
    simp only [List.length_nil] at hbefore
    omega
  · intro h
    rw [hbefore]
    by_cases hpad : scale + 1 ≤ ds.length
    · have hnone : padded = ds := by
        rw [hpadded, Nat.sub_eq_zero_of_le hpad]
        rfl
      rw [List.head?_take, if_neg (by omega), hnone] at h
      have := hzero h
      omega
    · omega

theorem exists_zeros (ds : List Char) : ∃ zeros,
    ds = (ds.reverse.dropWhile (· == '0')).reverse ++ List.replicate zeros '0' := by
  refine ⟨(ds.reverse.takeWhile (· == '0')).length, ?_⟩
  have hzeros : ds.reverse.takeWhile (· == '0')
      = List.replicate (ds.reverse.takeWhile (· == '0')).length '0' :=
    List.eq_replicate_iff.2 ⟨rfl, fun c hc => by
      simpa using List.all_eq_true.1 List.all_takeWhile c hc⟩
  calc ds = (ds.reverse.takeWhile (· == '0') ++ ds.reverse.dropWhile (· == '0')).reverse := by
        rw [List.takeWhile_append_dropWhile, List.reverse_reverse]
    _ = _ := by
        rw [List.reverse_append]
        conv_lhs => rw [hzeros, List.reverse_replicate]

/-- Digits with a point behind the first of them and an exponent are read as a number with fewer
digits, which is the same. -/
theorem magnitude_scientific (hds : ∀ c ∈ ds, isDigit c = true) (hne : ds ≠ [])
    (hzero : ds.head? ≠ some '0') (scale : Int) (hrest : EndsNumber rest) :
    ∃ (n : Nat) (zeros : Nat), digitsValue ds = n * 10 ^ zeros ∧
      magnitude (Decimal.scientific ds ((ds.length : Int) - scale - 1) ++ rest)
        = some ((n, scale - zeros), rest) := by
  obtain ⟨zeros, hzeros⟩ := exists_zeros ds
  obtain ⟨kept, hkept⟩ : ∃ kept, kept = (ds.reverse.dropWhile (· == '0')).reverse := ⟨_, rfl⟩
  rw [← hkept] at hzeros
  obtain ⟨first, others, hcons⟩ : ∃ first others, kept = first :: others := by
    refine List.exists_cons_of_ne_nil ?_
    rintro rfl
    cases zeros with
    | zero => exact hne hzeros
    | succ zeros =>
      rw [hzeros] at hzero
      exact hzero rfl
  have hdigits : ∀ c ∈ kept, isDigit c = true := by
    intro c hc
    refine hds c ?_
    rw [hzeros]
    exact List.mem_append_left _ hc
  have hlength : (ds.length : Int) = others.length + 1 + zeros := by
    rw [hzeros, hcons, List.length_append, List.length_cons, List.length_replicate]
    omega
  refine ⟨digitsValue kept, zeros, ?_, ?_⟩
  · rw [hzeros, Text.digitsValue_append, List.length_replicate, Text.digitsValue_zeros,
      Nat.add_zero]
  · have hexponent := exponent_written ((ds.length : Int) - scale - 1) hrest
    have hmagnitude := magnitude_written [first] others
      (fun c hc => hdigits c (by rw [hcons]; exact List.mem_append_left others hc))
      (List.cons_ne_nil first []) (fun _ => Nat.le_refl 1)
      (fun c hc => hdigits c (by rw [hcons]; exact List.mem_cons_of_mem first hc))
      (fun c hc => by cases hc; exact ⟨rfl, by decide⟩) hexponent
    have hscale : (others.length : Int) - ((ds.length : Int) - scale - 1) = scale - zeros := by
      omega
    rw [hscale] at hmagnitude
    rw [Decimal.scientific, ← hkept, hcons]
    simpa using hmagnitude

/-! ## Numbers -/

theorem number_of_head? (hs : s.head? ≠ some '-') :
    number s = (magnitude s).map fun ((n, scale), rest) => (Decimal.scaled n scale, rest) := by
  unfold number
  split
  · exact absurd rfl hs
  · rfl

/-- A text with a minus in front is no number without its sign. -/
theorem magnitude_minus (s : List Char) : magnitude ('-' :: s) = none := rfl

end Json.Reader

/-- The text of a number without its sign. -/
def Decimal.unsignedChars (d : Decimal) : List Char :=
  let digits := Nat.toDigits 10 d.mantissa.natAbs
  let point : Int := digits.length - d.scale
  if -6 < point ∧ point ≤ 21 then positional digits d.scale else scientific digits (point - 1)

theorem Decimal.chars_eq (d : Decimal) :
    d.chars = (if d.mantissa < 0 then ['-'] else []) ++ d.unsignedChars := rfl

namespace Json.Reader

/-- The digits of a number are read as the number, up to zeros at the end. -/
theorem magnitude_unsignedChars (d : Decimal) (hrest : EndsNumber rest) :
    ∃ (n zeros : Nat), d.mantissa.natAbs = n * 10 ^ zeros ∧
      magnitude (d.unsignedChars ++ rest) = some ((n, (d.scale : Int) - zeros), rest) := by
  have hdigits : ∀ c ∈ Nat.toDigits 10 d.mantissa.natAbs, isDigit c = true :=
    fun _ hc => Text.isDigit_of_mem_toDigits hc
  unfold Decimal.unsignedChars
  dsimp only
  split
  · refine ⟨d.mantissa.natAbs, 0, (Nat.mul_one _).symm, ?_⟩
    rw [magnitude_positional hdigits ?_ d.scale hrest, Text.digitsValue_toDigits]
    · simp
    · intro h
      by_cases hn : d.mantissa.natAbs = 0
      · rw [hn, Nat.toDigits_zero]
        exact Nat.le_refl 1
      · exact absurd h (Text.head?_toDigits hn)
  · rename_i hpoint
    -- Zero is written positionally, since it has no scale.
    have hn : d.mantissa.natAbs ≠ 0 := by
      intro hn
      rw [hn, Nat.toDigits_zero] at hpoint
      rcases d.lowest with hscale | hlowest
      · exact hpoint (by rw [hscale]; decide)
      · exact hlowest (by rw [Int.natAbs_eq_zero.1 hn]; rfl)
    obtain ⟨n, zeros, hvalue, hmagnitude⟩ := magnitude_scientific hdigits Nat.toDigits_ne_nil
      (Text.head?_toDigits hn) d.scale hrest
    rw [Text.digitsValue_toDigits] at hvalue
    exact ⟨n, zeros, hvalue, hmagnitude⟩

/-- **The text of a number is read as the number.** -/
theorem number_chars (d : Decimal) (hrest : EndsNumber rest) :
    number (d.chars ++ rest) = some (d, rest) := by
  obtain ⟨n, zeros, hvalue, hmagnitude⟩ := magnitude_unsignedChars d hrest
  have hscaled : ∀ m : Int, m * 10 ^ zeros = d.mantissa →
      Decimal.scaled m (d.scale - zeros) = d := by
    intro m hm
    rw [← Decimal.scaled_mul_pow m _ zeros, hm, Int.sub_add_cancel]
    exact Decimal.ofFraction_mantissa_scale d
  have habs : (n : Int) * 10 ^ zeros = d.mantissa.natAbs := by
    rw [hvalue]
    push_cast
    rfl
  rw [Decimal.chars_eq]
  by_cases hsign : d.mantissa < 0
  · rw [if_pos hsign, List.singleton_append, List.cons_append, number, hmagnitude, Option.map_some]
    dsimp only
    rw [hscaled]
    rw [Int.neg_mul, habs]
    omega
  · have hhead : (d.unsignedChars ++ rest).head? ≠ some '-' := by
      intro h
      obtain ⟨tail, htail⟩ := List.head?_eq_some_iff.1 h
      rw [htail, magnitude_minus] at hmagnitude
      cases hmagnitude
    rw [if_neg hsign, List.nil_append, number_of_head? hhead, hmagnitude, Option.map_some]
    dsimp only
    rw [hscaled]
    rw [habs]
    omega

/-! ## Strings -/

theorem hexValue?_hexDigit (hn : n < 16) : Toml.Quoted.hexValue? (hexDigit n) = some n := by
  have hall : ∀ n < 16, Toml.Quoted.hexValue? (hexDigit n) = some n := by decide
  exact hall n hn

theorem character?_toNat (c : Char) : character? none c.toNat = some c := by
  have hvalid : c.toNat.isValidChar := c.valid
  rw [character?, Toml.Quoted.scalar?, if_pos hvalid, Char.ofNat_toNat]

/-- A character is read from a code of four digits. -/
theorem stringAt_code (c : Char) (hc : c.toNat < 0x20) (s : List Char) :
    stringAt .text ('\\' :: 'u' :: '0' :: '0' :: hexDigit (c.toNat / 16) :: hexDigit (c.toNat % 16)
      :: s) = Toml.Quoted.push c (stringAt .text s) := by
  have hhigh := hexValue?_hexDigit (n := c.toNat / 16) (by omega)
  have hlow := hexValue?_hexDigit (n := c.toNat % 16) (by omega)
  have hvalue : c.toNat / 16 * 16 + c.toNat % 16 = c.toNat := Nat.div_add_mod' c.toNat 16
  have hfirst : isFirstHalf c.toNat = false := by
    simp only [isFirstHalf, Bool.and_eq_false_iff, decide_eq_false_iff_not]
    omega
  show stringAt (.code none 1 0) _ = _
  simp only [stringAt, hhigh, hlow, Nat.zero_mul, Nat.zero_add, Nat.sub_self, hvalue, hfirst,
    character?_toNat]
  rfl

/-- The written form of a character is read as that character. -/
theorem stringAt_escapeChar (c : Char) (s : List Char) :
    stringAt .text (escapeChar c ++ s) = Toml.Quoted.push c (stringAt .text s) := by
  have heq : ∀ {n : Nat}, c.toNat = n → c = Char.ofNat n := fun h => by rw [← h, Char.ofNat_toNat]
  by_cases hquote : c = '"'
  · subst hquote
    rfl
  by_cases hbackslash : c = '\\'
  · subst hbackslash
    rfl
  by_cases hlineFeed : c = '\n'
  · subst hlineFeed
    rfl
  by_cases hreturn : c = '\r'
  · subst hreturn
    rfl
  by_cases htab : c = '\t'
  · subst htab
    rfl
  by_cases hbackspace : c.toNat = 0x08
  · rw [heq hbackspace]
    rfl
  by_cases hformFeed : c.toNat = 0x0C
  · rw [heq hformFeed]
    rfl
  by_cases hcontrol : c.toNat < 0x20
  · simp only [escapeChar, hquote, hbackslash, hlineFeed, hreturn, htab, hbackspace, hformFeed,
      hcontrol, if_true, if_false]
    exact stringAt_code c hcontrol s
  · simp only [escapeChar, hquote, hbackslash, hlineFeed, hreturn, htab, hbackspace, hformFeed,
      hcontrol, if_false, List.singleton_append, stringAt]

/-- **The written form of a string is read as the string.** -/
theorem string_quote (s rest : List Char) :
    string (s.flatMap escapeChar ++ '"' :: rest) = some (String.ofList s, rest) := by
  have hstring : stringAt .text (s.flatMap escapeChar ++ '"' :: rest) = some (s, rest) := by
    induction s with
    | nil => rfl
    | cons c s ih =>
      rw [List.flatMap_cons, List.append_assoc, stringAt_escapeChar, ih]
      rfl
  rw [string, hstring]
  rfl

end Json.Reader
end WakeConfig
