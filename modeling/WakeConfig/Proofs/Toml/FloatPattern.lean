import Mathlib.Computability.RegularExpressions
import Mathlib.Tactic.IntervalCases
import WakeConfig.Proofs.Toml.Numbers

/-!
# The pattern of floats

The parts of numbers as regular expressions, and the floats put together from them. What is dropped
of a token as a sign, digits, a fraction or an exponent is a word of the pattern of that part;
`isFloatToken_iff` says that the float tokens are the words of the pattern of floats.
-/

namespace WakeConfig.Toml

open Number (EndsRun)
open RegularExpression (char star)
open Text (isDigit)

/-! ## Patterns -/

/-- A regular expression for words. -/
abbrev Pattern := RegularExpression Char

namespace Pattern

/-- One of some characters. -/
def oneOf (cs : List Char) : Pattern := (cs.map char).sum

/-- One word. -/
def word (cs : List Char) : Pattern := (cs.map char).prod

/-- A pattern, or nothing. -/
def optional (p : Pattern) : Pattern := 1 + p

/-- The digits of a base up to ten. -/
def digits (base : Nat) : List Char := ['0', '1', '2', '3', '4', '5', '6', '7', '8', '9'].take base

/-- A decimal digit. -/
def digit : Pattern := oneOf (digits 10)

/-- Digits with single underscores between them. -/
def run (digit : Pattern) : Pattern := digit * star (optional (char '_') * digit)

/-- A sign. -/
def sign : Pattern := oneOf ['+', '-']

/-- A point and digits. -/
def fraction : Pattern := char '.' * run digit

/-- The letter of an exponent, perhaps a sign, and digits. -/
def exponent : Pattern := oneOf ['e', 'E'] * (optional sign * run digit)

/-- What makes a number a float: a fraction, an exponent or both. -/
def tail : Pattern := fraction + exponent + fraction * exponent

/-- An infinity or NaN. -/
def special : Pattern := word ['i', 'n', 'f'] + word ['n', 'a', 'n']

/-- A float, which may have a sign. Zeros may lead its digits. -/
def float : Pattern := optional sign * (run digit * tail + special)

/-! ## Words of patterns -/

variable {p q : Pattern} {w u v r s t : List Char} {c : Char} {cs : List Char}

theorem mem_add : w ∈ (p + q).matches' ↔ w ∈ p.matches' ∨ w ∈ q.matches' := Iff.rfl

theorem mem_mul : w ∈ (p * q).matches' ↔ ∃ u ∈ p.matches', ∃ v ∈ q.matches', u ++ v = w :=
  Language.mem_mul

theorem append_mem (hu : u ∈ p.matches') (hv : v ∈ q.matches') : u ++ v ∈ (p * q).matches' :=
  Language.append_mem_mul hu hv

theorem mem_char : w ∈ (char c : Pattern).matches' ↔ w = [c] := Iff.rfl

theorem mem_optional : w ∈ (optional p).matches' ↔ w = [] ∨ w ∈ p.matches' := Iff.rfl

theorem mem_oneOf : w ∈ (oneOf cs).matches' ↔ ∃ c ∈ cs, w = [c] := by
  induction cs with
  | nil => simp [oneOf, RegularExpression.matches'_zero]
  | cons c cs ih =>
    rw [oneOf, List.map_cons, List.sum_cons, mem_add, mem_char, ← oneOf, ih]
    simp

theorem mem_word : w ∈ (word cs).matches' ↔ w = cs := by
  induction cs generalizing w with
  | nil => exact Iff.rfl
  | cons c cs ih =>
    rw [word, List.map_cons, List.prod_cons, mem_mul, ← word]
    simp only [mem_char, ih]
    simp [eq_comm]

theorem nil_mem_star : [] ∈ (star p).matches' := Language.nil_mem_kstar _

theorem append_mem_star (hu : u ∈ p.matches') (hv : v ∈ (star p).matches') :
    u ++ v ∈ (star p).matches' :=
  mul_kstar_le_kstar (a := p.matches') (Language.append_mem_mul hu hv)

/-- The characters of a pattern. -/
def letters : Pattern → List Char
  | .zero => []
  | .epsilon => []
  | .char c => [c]
  | .plus p q => letters p ++ letters q
  | .comp p q => letters p ++ letters q
  | .star p => letters p

/-- A word has only characters of its pattern. -/
theorem mem_letters (p : Pattern) (hw : w ∈ p.matches') (hc : c ∈ w) : c ∈ letters p := by
  induction p generalizing w with
  | zero => cases hw
  | epsilon =>
    obtain rfl : w = [] := hw
    cases hc
  | char d =>
    obtain rfl : w = [d] := hw
    exact hc
  | plus p q ihp ihq =>
    exact List.mem_append.2 (hw.imp (ihp · hc) (ihq · hc))
  | comp p q ihp ihq =>
    obtain ⟨u, hu, v, hv, rfl⟩ := mem_mul.1 hw
    exact List.mem_append.2 ((List.mem_append.1 hc).imp (ihp hu) (ihq hv))
  | star p ih =>
    obtain ⟨us, rfl, hus⟩ := Language.mem_kstar.1 hw
    obtain ⟨u, hu, hc⟩ := List.mem_flatten.1 hc
    exact ih (hus u hu) hc

/-! ## Digits -/

theorem isDigit_iff_mem : isDigit c = true ↔ c ∈ digits 10 := by
  constructor
  · intro h
    obtain ⟨hle, hlt⟩ := Text.isDigit_iff.1 h
    rw [← Char.ofNat_toNat c]
    interval_cases c.toNat <;> decide
  · exact fun h => List.all_eq_true.1 (by decide : (digits 10).all isDigit = true) c h

theorem mem_digit : w ∈ digit.matches' ↔ ∃ d, isDigit d = true ∧ w = [d] := by
  simp only [digit, mem_oneOf, isDigit_iff_mem]

theorem exists_digit_of_mem_run (h : r ∈ (run digit).matches') :
    ∃ d t, isDigit d = true ∧ r = d :: t := by
  obtain ⟨u, hu, t, -, rfl⟩ := mem_mul.1 h
  obtain ⟨d, hd, rfl⟩ := mem_digit.1 hu
  exact ⟨d, t, hd, rfl⟩

theorem exists_of_mem_exponent (h : s ∈ exponent.matches') :
    ∃ c r, (c = 'e' ∨ c = 'E') ∧ s = c :: r := by
  obtain ⟨u, hu, r, -, rfl⟩ := mem_mul.1 h
  obtain ⟨c, hc, rfl⟩ := mem_oneOf.1 hu
  exact ⟨c, r, by simpa using hc, rfl⟩

/-- A fraction and an exponent behind it, of which one may be missing. -/
theorem mem_tail : s ∈ tail.matches' ↔ s ∈ exponent.matches' ∨
    ∃ r ∈ (run digit).matches', ∃ x ∈ (optional exponent).matches', s = '.' :: (r ++ x) := by
  constructor
  · rintro ((⟨u, hu, r, hr, rfl⟩ | h) | ⟨_, ⟨u, hu, r, hr, rfl⟩, x, hx, rfl⟩)
    · obtain rfl := mem_char.1 hu
      exact .inr ⟨r, hr, [], mem_optional.2 (.inl rfl), by simp⟩
    · exact .inl h
    · obtain rfl := mem_char.1 hu
      exact .inr ⟨r, hr, x, mem_optional.2 (.inr hx), rfl⟩
  · rintro (h | ⟨r, hr, x, hx, rfl⟩)
    · exact .inl (.inr h)
    · have hpoint : '.' :: r ∈ fraction.matches' := append_mem (mem_char.2 rfl) hr
      rcases mem_optional.1 hx with rfl | hx
      · rw [List.append_nil]
        exact .inl (.inl hpoint)
      · exact .inr (append_mem hpoint hx)

theorem exists_of_mem_tail (h : s ∈ tail.matches') :
    ∃ c r, (c = '.' ∨ c = 'e' ∨ c = 'E') ∧ s = c :: r := by
  rcases mem_tail.1 h with h | ⟨r, -, x, -, rfl⟩
  · obtain ⟨c, r, hc, rfl⟩ := exists_of_mem_exponent h
    exact ⟨c, r, .inr hc, rfl⟩
  · exact ⟨'.', r ++ x, .inl rfl, rfl⟩

/-- A point or the letter of an exponent ends the digits in front of it. -/
theorem endsRun_tail (h : s ∈ tail.matches') : EndsRun s := by
  obtain ⟨c, r, rfl | rfl | rfl, rfl⟩ := exists_of_mem_tail h <;> simp [EndsRun, isDigit]

theorem endsRun_exponent (h : s ∈ (optional exponent).matches') : EndsRun s := by
  rcases mem_optional.1 h with rfl | h
  · exact Number.endsRun_nil
  · exact endsRun_tail (mem_tail.2 (.inl h))

end Pattern

namespace FloatLiteral

open Pattern

variable {c : Char} {w r s t : List Char}

/-! ## What is dropped -/

/-- The digits that are dropped, with underscores that a digit follows. -/
theorem exists_digits (s : List Char) :
    ∃ r ∈ (star (optional (char '_') * digit)).matches', s = r ++ dropDigits s := by
  fun_induction dropDigits s with
  | case1 => exact ⟨[], nil_mem_star, rfl⟩
  | case2 d s hd ih =>
    obtain ⟨r, hr, hs⟩ := ih
    refine ⟨['_', d] ++ r, append_mem_star ?_ hr, congrArg ('_' :: d :: ·) hs⟩
    exact append_mem (mem_optional.2 (.inr (mem_char.2 rfl))) (mem_digit.2 ⟨d, hd, rfl⟩)
  | case3 => exact ⟨[], nil_mem_star, rfl⟩
  | case4 c s _ hc ih =>
    obtain ⟨r, hr, hs⟩ := ih
    refine ⟨[c] ++ r, append_mem_star ?_ hr, congrArg (c :: ·) hs⟩
    exact append_mem (mem_optional.2 (.inl rfl)) (mem_digit.2 ⟨c, hc, rfl⟩)
  | case5 => exact ⟨[], nil_mem_star, rfl⟩

theorem dropDigits_append (hr : r ∈ (star (optional (char '_') * digit)).matches')
    (ht : EndsRun t) : dropDigits (r ++ t) = t := by
  obtain ⟨us, rfl, hus⟩ := Language.mem_kstar.1 hr
  clear hr
  induction us with
  | nil => exact Number.dropDigits_of_endsRun ht
  | cons u us ih =>
    obtain ⟨hu, hus'⟩ := List.forall_mem_cons.1 hus
    obtain ⟨m, hm, v, hv, rfl⟩ := mem_mul.1 hu
    obtain ⟨d, hd, rfl⟩ := mem_digit.1 hv
    have hrest := ih hus'
    -- a part of the run is a digit, or an underscore with its digit behind it
    rcases mem_optional.1 hm with rfl | rfl
    · simpa [Number.dropDigits_digit hd] using hrest
    · simpa [dropDigits, hd] using hrest

theorem exists_run (h : dropRun? s = some t) : ∃ r ∈ (run digit).matches', s = r ++ t := by
  cases s with
  | nil => cases h
  | cons d s =>
    rw [dropRun?] at h
    split at h
    · rename_i hd
      obtain rfl := Option.some.inj h
      obtain ⟨r, hr, hs⟩ := exists_digits s
      exact ⟨[d] ++ r, append_mem (mem_digit.2 ⟨d, hd, rfl⟩) hr, congrArg (d :: ·) hs⟩
    · cases h

theorem dropRun?_append (hr : r ∈ (run digit).matches') (ht : EndsRun t) :
    dropRun? (r ++ t) = some t := by
  obtain ⟨u, hu, v, hv, rfl⟩ := mem_mul.1 hr
  obtain ⟨d, hd, rfl⟩ := mem_digit.1 hu
  simp [dropRun?, hd, dropDigits_append hv ht]

/-- All of a text is a run of digits exactly if nothing is left when a run is dropped. -/
theorem dropRun?_eq_nil_iff : dropRun? s = some [] ↔ s ∈ (run digit).matches' := by
  constructor
  · intro h
    obtain ⟨r, hr, rfl⟩ := exists_run h
    rwa [List.append_nil]
  · intro h
    simpa using dropRun?_append h Number.endsRun_nil

theorem exists_sign (s : List Char) : ∃ a ∈ (optional sign).matches', s = a ++ dropSign s := by
  unfold dropSign
  split
  · exact ⟨['+'], mem_optional.2 (.inr (mem_oneOf.2 ⟨'+', by simp, rfl⟩)), rfl⟩
  · exact ⟨['-'], mem_optional.2 (.inr (mem_oneOf.2 ⟨'-', by simp, rfl⟩)), rfl⟩
  · exact ⟨[], mem_optional.2 (.inl rfl), rfl⟩

theorem dropSign_append {a : List Char} (ha : a ∈ (optional sign).matches')
    (hs : dropSign s = s) : dropSign (a ++ s) = s := by
  rcases mem_optional.1 ha with rfl | ha
  · exact hs
  · obtain ⟨c, hc, rfl⟩ := mem_oneOf.1 ha
    simp only [List.mem_cons, List.not_mem_nil, or_false] at hc
    rcases hc with rfl | rfl <;> rfl

theorem dropSign_digit (hc : isDigit c = true) (s : List Char) : dropSign (c :: s) = c :: s := by
  have hne : c ≠ '+' ∧ c ≠ '-' := by
    refine ⟨?_, ?_⟩ <;> (rintro rfl; revert hc; decide)
  unfold dropSign
  split <;> simp_all

/-- Only a sign is dropped in front of digits. -/
theorem dropSign_append_run {a : List Char} (ha : a ∈ (optional sign).matches')
    (hr : r ∈ (run digit).matches') (t : List Char) : dropSign (a ++ (r ++ t)) = r ++ t := by
  obtain ⟨d, r, hd, rfl⟩ := exists_digit_of_mem_run hr
  exact dropSign_append ha (dropSign_digit hd (r ++ t))

/-! ## Floats -/

theorem isExponent_iff : isExponent s = true ↔ s ∈ (optional sign * run digit).matches' := by
  rw [isExponent, beq_iff_eq, dropRun?_eq_nil_iff, mem_mul]
  constructor
  · intro h
    obtain ⟨a, ha, hs⟩ := exists_sign s
    exact ⟨a, ha, dropSign s, h, hs.symm⟩
  · rintro ⟨a, ha, r, hr, rfl⟩
    have hsign := dropSign_append_run ha hr []
    rw [List.append_nil] at hsign
    rwa [hsign]

theorem isExponentPart_iff : isExponentPart s = true ↔ s ∈ exponent.matches' := by
  rw [exponent, mem_mul]
  constructor
  · intro h
    unfold isExponentPart at h
    split at h
    · exact ⟨['e'], mem_oneOf.2 ⟨'e', by simp, rfl⟩, _, isExponent_iff.1 h, rfl⟩
    · exact ⟨['E'], mem_oneOf.2 ⟨'E', by simp, rfl⟩, _, isExponent_iff.1 h, rfl⟩
    · cases h
  · rintro ⟨u, hu, r, hr, rfl⟩
    obtain ⟨c, hc, rfl⟩ := mem_oneOf.1 hu
    simp only [List.mem_cons, List.not_mem_nil, or_false] at hc
    rcases hc with rfl | rfl <;> exact isExponent_iff.2 hr

theorem isFloatTail_iff : isFloatTail s = true ↔ s ∈ tail.matches' := by
  rw [mem_tail]
  constructor
  · intro h
    unfold isFloatTail at h
    split at h
    · split at h
      · cases h
      · rename_i hrun
        refine .inr ⟨_, dropRun?_eq_nil_iff.1 hrun, [], mem_optional.2 (.inl rfl), by simp⟩
      · rename_i hrun
        obtain ⟨r, hr, rfl⟩ := exists_run hrun
        exact .inr ⟨r, hr, _, mem_optional.2 (.inr (isExponentPart_iff.1 h)), rfl⟩
    · exact .inl (isExponentPart_iff.1 h)
  · rintro (h | ⟨r, hr, x, hx, rfl⟩)
    · have hpart := isExponentPart_iff.2 h
      obtain ⟨c, r, rfl | rfl, rfl⟩ := exists_of_mem_exponent h <;> exact hpart
    · have hrest := dropRun?_append hr (endsRun_exponent hx)
      rcases mem_optional.1 hx with rfl | hx
      · rw [List.append_nil] at hrest ⊢
        simp [isFloatTail, hrest]
      · have hpart := isExponentPart_iff.2 hx
        obtain ⟨c, x, -, rfl⟩ := exists_of_mem_exponent hx
        simpa [isFloatTail, hrest] using hpart

/-- The float tokens are the words of the pattern of floats. -/
theorem isFloatToken_iff : isFloatToken w = true ↔ w ∈ float.matches' := by
  rw [float, mem_mul]
  constructor
  · intro h
    obtain ⟨a, ha, hw⟩ := exists_sign w
    refine ⟨a, ha, dropSign w, ?_, hw.symm⟩
    rcases Bool.or_eq_true _ _ ▸ h with h | h
    · simp only [isSpecial, Bool.or_eq_true, beq_iff_eq] at h
      exact .inr (h.imp mem_word.2 mem_word.2)
    · split at h
      · cases h
      · rename_i hrun
        obtain ⟨r, hr, hs⟩ := exists_run hrun
        rw [hs]
        exact .inl (append_mem hr (isFloatTail_iff.1 h))
  · rintro ⟨a, ha, b, ⟨r, hr, t, ht, rfl⟩ | hb, rfl⟩
    · have hsign := dropSign_append_run ha hr t
      rw [isFloatToken, hsign, dropRun?_append hr (endsRun_tail ht)]
      simp [isFloatTail_iff.2 ht]
    · have hspecial : isSpecial (a ++ b) = true := by
        rcases hb with hb | hb <;> obtain rfl := mem_word.1 hb <;>
          rw [isSpecial, dropSign_append ha rfl] <;> rfl
      rw [isFloatToken, hspecial, Bool.true_or]

end FloatLiteral

end WakeConfig.Toml
