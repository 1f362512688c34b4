import Mathlib.Data.List.Induction
import WakeConfig.Config.Show
import WakeConfig.Proofs.Json.Scalars
import WakeConfig.Proofs.Spellings

/-!
# The text of an address

The text of a well-formed address is read as that address, since it is written in the form of its
family: a version 4 host has no colon and no bracket, and a version 6 host stands in brackets. The
other way round, a text that is read as an address is its text, but for zeros in front of the port.
-/

namespace WakeConfig

/-! ## Zeros in front -/

namespace Text

variable {ds : List Char} {c d : Char}

/-- Digits without the zeros in front of them. One digit is kept. -/
def withoutZeros : List Char → List Char
  | '0' :: d :: ds => withoutZeros (d :: ds)
  | ds => ds

/-- Digits start with a zero that says nothing: others follow. -/
def HasSpareZero (ds : List Char) : Prop := ∃ d rest, ds = '0' :: d :: rest

theorem withoutZeros_of_not_hasSpareZero (h : ¬HasSpareZero ds) : withoutZeros ds = ds := by
  unfold withoutZeros
  split
  · exact absurd ⟨_, _, rfl⟩ h
  · rfl

theorem not_hasSpareZero_withoutZeros (ds : List Char) : ¬HasSpareZero (withoutZeros ds) := by
  fun_induction withoutZeros ds with
  | case1 d ds ih => exact ih
  | case2 ds hds =>
    rintro ⟨d, rest, rfl⟩
    exact hds d rest rfl

theorem withoutZeros_eq_self_iff : withoutZeros ds = ds ↔ ¬HasSpareZero ds := by
  refine ⟨fun h => ?_, withoutZeros_of_not_hasSpareZero⟩
  rw [← h]
  exact not_hasSpareZero_withoutZeros ds

theorem withoutZeros_ne_nil (h : ds ≠ []) : withoutZeros ds ≠ [] := by
  fun_induction withoutZeros ds with
  | case1 d ds ih => exact ih (List.cons_ne_nil d ds)
  | case2 ds => exact h

theorem withoutZeros_suffix (ds : List Char) : withoutZeros ds <:+ ds := by
  fun_induction withoutZeros ds with
  | case1 d ds ih => exact ih.trans (List.suffix_cons '0' (d :: ds))
  | case2 ds => exact List.suffix_refl ds

/-- Zeros in front do not change what digits spell. -/
theorem digitsValue_withoutZeros (ds : List Char) :
    digitsValue (withoutZeros ds) = digitsValue ds := by
  fun_induction withoutZeros ds with
  | case1 d ds ih =>
    rw [ih]
    rfl
  | case2 => rfl

theorem digitChar_of_isDigit (h : isDigit d = true) :
    d.toNat - 48 < 10 ∧ Nat.digitChar (d.toNat - 48) = d := by
  obtain ⟨hlow, hhigh⟩ := isDigit_iff.1 h
  refine ⟨by omega, Char.toNat_inj.1 ?_⟩
  rw [Nat.toNat_digitChar_of_lt_ten (by omega)]
  omega

/-- Digits without a spare zero are those of the number that they spell. -/
theorem toDigits_digitsValue (hne : ds ≠ []) (hdigits : ∀ c ∈ ds, isDigit c = true)
    (hzero : ¬HasSpareZero ds) : Nat.toDigits 10 (digitsValue ds) = ds := by
  induction ds using List.reverseRecOn with
  | nil => exact absurd rfl hne
  | append_singleton ds d ih =>
    obtain ⟨hlt, hchar⟩ := digitChar_of_isDigit (hdigits d (by simp))
    rw [digitsValue_concat]
    by_cases hds : ds = []
    · subst hds
      rw [digitsValue_nil, Nat.zero_mul, Nat.zero_add, Nat.toDigits_of_lt_base hlt, hchar]
      rfl
    · have hfront : Nat.toDigits 10 (digitsValue ds) = ds := by
        refine ih hds (fun c hc => hdigits c (List.mem_append_left [d] hc)) ?_
        rintro ⟨c, rest, rfl⟩
        exact hzero ⟨c, rest ++ [d], rfl⟩
      have hpos : 0 < digitsValue ds := by
        refine Nat.pos_of_ne_zero fun h => hzero ?_
        rw [h, Nat.toDigits_zero] at hfront
        rw [← hfront]
        exact ⟨d, [], rfl⟩
      rw [Nat.mul_comm, ← Nat.toDigits_append_toDigits (by decide) hpos hlt, hfront,
        Nat.toDigits_of_lt_base hlt, hchar]

/-- The digits of the number that digits spell are those digits without zeros in front. -/
theorem toString_digitsValue (hne : ds ≠ []) (hdigits : ∀ c ∈ ds, isDigit c = true) :
    toString (digitsValue ds) = String.ofList (withoutZeros ds) := by
  rw [← digitsValue_withoutZeros, Nat.toString_eq_ofList_toDigits,
    toDigits_digitsValue (withoutZeros_ne_nil hne)
      (fun c hc => hdigits c ((withoutZeros_suffix ds).subset hc))
      (not_hasSpareZero_withoutZeros ds)]

end Text

namespace SocketAddress

variable {a : SocketAddress} {address : String} {port : Nat}

/-! ## Writing and reading -/

theorem length_toDigits_port (hport : port ≤ maxPort) : (Nat.toDigits 10 port).length ≤ 5 :=
  (Nat.length_toDigits_le_iff (by decide) (by decide)).2 (Nat.lt_of_le_of_lt hport (by decide))

/-- A port is spelled by its digits. -/
theorem spellsPort_toString (hport : port ≤ maxPort) :
    SpellsPort (toString port).toList port := by
  rw [Nat.toString_eq_ofList_toDigits, String.toList_ofList]
  exact ⟨Nat.toDigits_ne_nil, length_toDigits_port hport,
    fun c hc => Text.isDigit_of_mem_toDigits hc, Text.digitsValue_toDigits port, hport⟩

/-- The form in which a host of a family is written. -/
def formOf : Family → AddressForm
  | .v4 => .plain
  | .v6 => .bracketed

theorem format_eq_text (a : SocketAddress) :
    a.format = (formOf a.family).text a.host (toString a.port) := by
  unfold format
  cases a.family with
  | v4 => rfl
  | v6 => rfl

theorem admits_of_family? {host : String} {family : Family}
    (h : IpAddress.family? host = some family) : (formOf family).Admits host := by
  cases family with
  | v6 => exact h
  | v4 =>
    have hv4 := IpAddress.isV4_of_family? h
    have hbracket : '[' ∉ host.toList := IpAddress.not_mem_of_isV4 hv4 rfl (by decide)
    refine ⟨fun he => IpAddress.ne_nil_of_isV4 hv4 (String.toList_eq_nil_iff.2 he),
      IpAddress.not_mem_of_isV4 hv4 rfl (by decide), fun hhead => hbracket ?_⟩
    exact List.mem_of_mem_head? hhead

/-- A literal stands in the form of its family: a version 6 host has colons. -/
theorem eq_formOf_of_admits {host : String} {family : Family} {form : AddressForm}
    (h : IpAddress.family? host = some family) (hform : form.Admits host) :
    form = formOf family := by
  cases form with
  | bracketed =>
    obtain rfl : .v6 = family := Option.some.inj (hform.symm.trans h)
    rfl
  | plain =>
    cases family with
    | v4 => rfl
    | v6 => exact absurd (IpAddress.colon_mem_of_isV6 (IpAddress.isV6_of_family? h)) hform.2.1

theorem writes_format (h : a.IsWellFormed) :
    Writes (formOf a.family) (toString a.port) ⟨a.host, a.port⟩ a.format :=
  ⟨format_eq_text a, admits_of_family? h.family, spellsPort_toString h.port⟩

theorem split_format (h : a.IsWellFormed) : split a.format = .ok ⟨a.host, a.port⟩ :=
  split_eq_ok_iff.2 ⟨_, _, writes_format h⟩

/-- The text of a well-formed address is read as that address. -/
theorem parse_format (h : a.IsWellFormed) : parse a.format = .ok a :=
  parse_eq_ok_iff.2 ⟨split_format h, h.family⟩

/-- An address that a text is read as is written like the text, without zeros in front of its
port. -/
theorem format_of_writes {form : AddressForm} {digits : String} (h : parse address = .ok a)
    (hwrites : Writes form digits ⟨a.host, a.port⟩ address) :
    a.format = form.text a.host (String.ofList (Text.withoutZeros digits.toList)) := by
  obtain ⟨-, hfamily⟩ := parse_eq_ok_iff.1 h
  obtain ⟨-, hhost, hport⟩ := hwrites
  have hvalue : Text.digitsValue digits.toList = a.port := hport.value
  rw [format_eq_text, eq_formOf_of_admits hfamily hhost, ← hvalue,
    Text.toString_digitsValue hport.ne_nil hport.decimal]

/-- **Reading and writing an address are inverse.** The text of a well-formed address is read as
that address. The text of an address that was read is the text it was read from, without the zeros
in front of the port; so it is the same text exactly if there are none. -/
theorem parse_format_inverse :
    (∀ a : SocketAddress, a.IsWellFormed → parse a.format = .ok a) ∧
    (∀ (address : String) (a : SocketAddress), parse address = .ok a →
      ∃ form digits, Writes form digits ⟨a.host, a.port⟩ address ∧
        a.format = form.text a.host (String.ofList (Text.withoutZeros digits.toList)) ∧
        (a.format = address ↔ ¬Text.HasSpareZero digits.toList)) := by
  refine ⟨fun a h => parse_format h, fun address a h => ?_⟩
  obtain ⟨hsplit, -⟩ := parse_eq_ok_iff.1 h
  obtain ⟨form, digits, hwrites⟩ := split_eq_ok_iff.1 hsplit
  have hformat := format_of_writes h hwrites
  refine ⟨form, digits, hwrites, hformat, ?_⟩
  rw [hformat, hwrites.text, ← Text.withoutZeros_eq_self_iff, AddressForm.text_right_inj,
    ← String.toList_inj, String.toList_ofList]

/-- A version 6 address with a version 4 address and a zone in it is read from its text, and the
spare zeros of a port are not written again. -/
theorem parse_format_inverse_zone :
    (⟨"64:ff9b::192.0.2.33%eth-0.1:2", 25565, .v6⟩ : SocketAddress).IsWellFormed ∧
      parse "[64:ff9b::192.0.2.33%eth-0.1:2]:25565"
        = .ok ⟨"64:ff9b::192.0.2.33%eth-0.1:2", 25565, .v6⟩ ∧
      parse "127.0.0.1:00080" = .ok ⟨"127.0.0.1", 80, .v4⟩ ∧
      ∃ form digits, Writes form digits ⟨"127.0.0.1", 80⟩ "127.0.0.1:00080" ∧
        "127.0.0.1:80"
          = form.text "127.0.0.1" (String.ofList (Text.withoutZeros digits.toList)) := by
  have hwell : (⟨"64:ff9b::192.0.2.33%eth-0.1:2", 25565, .v6⟩ : SocketAddress).IsWellFormed :=
    ⟨by decide +kernel, by decide⟩
  have hparse : parse "127.0.0.1:00080" = .ok ⟨"127.0.0.1", 80, .v4⟩ := by decide +kernel
  have hwritten : format ⟨"127.0.0.1", 80, .v4⟩ = "127.0.0.1:80" := by decide +kernel
  obtain ⟨form, digits, hwrites, hformat, -⟩ := parse_format_inverse.2 _ _ hparse
  rw [hwritten] at hformat
  exact ⟨hwell, parse_format_inverse.1 _ hwell, hparse, form, digits, hwrites, hformat⟩

/-! ## The object of an address -/

/-- The text of a number that can be a port. -/
theorem text_ofNat (hport : port ≤ maxPort) : (Decimal.ofNat port).text = toString port := by
  have hlength := length_toDigits_port hport
  have hpositive : 0 < (Nat.toDigits 10 port).length := Nat.length_toDigits_pos
  have hchars : (Decimal.ofNat port).chars = Nat.toDigits 10 port := by
    have hnatAbs : (Decimal.ofNat port).mantissa.natAbs = port := Int.natAbs_natCast port
    have hscale : (Decimal.ofNat port).scale = 0 := rfl
    have hsign : ¬ (Decimal.ofNat port).mantissa < 0 := Int.not_lt.2 (Int.natCast_nonneg port)
    rw [Decimal.chars_eq, if_neg hsign, List.nil_append, Decimal.unsignedChars, hnatAbs, hscale,
      if_pos (by omega), Decimal.positional]
    simp [Nat.sub_eq_zero_of_le hpositive]
  rw [Decimal.text, hchars, Nat.toString_eq_ofList_toDigits]

/-- The object of an address is known by its members, and its text is that of the address. -/
theorem addressText?_toJson (h : a.port ≤ maxPort) : a.toJson.addressText? = some a.format := by
  have hjson : a.toJson = .object [("host", .string a.host), ("port", .ofNat a.port),
      ("family", .ofNat a.family.number)] := rfl
  have htext : (Decimal.ofNat a.port).text = toString a.port := text_ofNat h
  rw [hjson]
  unfold format
  cases a.family with
  | v4 =>
    show some (a.host ++ ":" ++ (Decimal.ofNat a.port).text) = _
    rw [htext]
    rfl
  | v6 =>
    show some ("[" ++ a.host ++ "]:" ++ (Decimal.ofNat a.port).text) = _
    rw [htext]
    rfl

end SocketAddress

end WakeConfig
