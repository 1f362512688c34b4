import Mathlib.Data.List.Basic
import WakeConfig.Proofs.Toml.FloatPattern

/-!
# Float tokens

The characters of a float token, and what stands on both sides of its point.
-/

namespace WakeConfig.Toml

open Pattern
open Text (isDigit)

variable {c : Char} {w y : List Char}

namespace FloatLiteral

/-- A float token has a point, an exponent or the letter of a special value. -/
theorem exists_mem_of_isFloatToken (h : isFloatToken w = true) :
    ∃ c ∈ w, c = '.' ∨ c = 'e' ∨ c = 'E' ∨ c = 'n' := by
  obtain ⟨a, -, b, hb, rfl⟩ := mem_mul.1 (isFloatToken_iff.1 h)
  rcases hb with ⟨r, -, t, ht, rfl⟩ | hb
  · obtain ⟨c, t, hc, rfl⟩ := exists_of_mem_tail ht
    refine ⟨c, by simp, ?_⟩
    rcases hc with rfl | rfl | rfl <;> simp
  · refine ⟨'n', List.mem_append_right a ?_, by simp⟩
    rcases hb with hb | hb <;> obtain rfl := mem_word.1 hb <;> decide

/-- Whether a character may stand in a float token. -/
def isFloatChar (c : Char) : Bool :=
  isDigit c || ['_', '.', 'e', 'E', '+', '-', 'i', 'n', 'f', 'a'].contains c

theorem isFloatChar_of_isFloatToken (hw : isFloatToken w = true) (h : c ∈ w) :
    isFloatChar c = true := by
  have hall : (letters float).all isFloatChar = true := by decide
  exact List.all_eq_true.1 hall c (mem_letters float (isFloatToken_iff.1 hw) h)

theorem isFloatToken_of_digits (h : ∀ c ∈ w, isDigit c = true ∨ c = '_' ∨ c = '+' ∨ c = '-') :
    isFloatToken w = false := by
  cases hw : isFloatToken w with
  | false => rfl
  | true =>
    obtain ⟨c, hc, hx⟩ := exists_mem_of_isFloatToken hw
    have := h c hc
    rcases hx with rfl | rfl | rfl | rfl <;> revert this <;> decide

/-! ## The point of a float -/

/-- Whether a name is a float token or the part of one before its point. -/
def isNumeral (w : List Char) : Bool := isFloatToken w || dropRun? (dropSign w) == some []

/-- In front of the point of a float stands a run of digits, behind it a digit, and there is no
other point. -/
theorem isFloatToken_point (hw : '.' ∉ w) (h : isFloatToken (w ++ '.' :: y) = true) :
    isNumeral w = true ∧ '.' ∉ y ∧ ∃ d ∈ y.head?, isDigit d = true := by
  have hpoint : '.' ∈ w ++ '.' :: y := by simp
  obtain ⟨a, ha, b, hb, hab⟩ := mem_mul.1 (isFloatToken_iff.1 h)
  rw [← hab] at hpoint
  have hsign : '.' ∉ a := mt (mem_letters _ ha) (by decide)
  rcases hb with ⟨r, hr, t, ht, rfl⟩ | hb
  · have hrun : '.' ∉ r := mt (mem_letters _ hr) (by decide)
    rcases mem_tail.1 ht with ht | ⟨f, hf, x, hx, rfl⟩
    · have htail : '.' ∉ t := mt (mem_letters _ ht) (by decide)
      simp [hsign, hrun, htail] at hpoint
    · -- the token has one point, so both sides of it are known
      have hbehind : '.' ∉ f ++ x := mt (mem_letters _ (append_mem hf hx)) (by decide)
      have hfront : '.' ∉ a ++ r := by simp [hsign, hrun]
      have hsplit : (a ++ r) ++ '.' :: (f ++ x) = w ++ '.' :: y := by simpa using hab
      obtain ⟨rfl, -, rfl⟩ := (List.append_cons_inj_of_notMem hfront hbehind).1 hsplit
      have hdigits := dropSign_append_run ha hr []
      rw [List.append_nil] at hdigits
      refine ⟨by simp [isNumeral, hdigits, dropRun?_eq_nil_iff.2 hr], hbehind, ?_⟩
      obtain ⟨d, f, hd, rfl⟩ := exists_digit_of_mem_run hf
      exact ⟨d, rfl, hd⟩
  · have hspecial : '.' ∉ b := mt (mem_letters special hb) (by decide)
    simp [hsign, hspecial] at hpoint

end FloatLiteral

end WakeConfig.Toml
