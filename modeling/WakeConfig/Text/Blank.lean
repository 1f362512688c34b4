/-!
# Blank characters

The set of characters that count as white space around a value, and trimming by that set.
It holds the Unicode space separators, the line and paragraph separators, the ASCII controls
TAB to CR and the byte order mark; U+0085, U+180E, U+200B and U+2060 are not in it.
-/

namespace WakeConfig.Text

/-- Whether a character is blank. -/
def isBlank (c : Char) : Bool :=
  let n := c.toNat
  (9 ≤ n && n ≤ 13) || n == 0x20 || n == 0xA0 || n == 0x1680 || (0x2000 ≤ n && n ≤ 0x200A)
    || n == 0x2028 || n == 0x2029 || n == 0x202F || n == 0x205F || n == 0x3000 || n == 0xFEFF

/-- Drops the blank characters at the end. -/
def trimEnd (s : List Char) : List Char := (s.reverse.dropWhile isBlank).reverse

/-- Drops the blank characters at both ends. -/
def trim (s : List Char) : List Char := trimEnd (s.dropWhile isBlank)

/-- A text without its leading blanks is empty if it has only blank characters. -/
theorem dropWhile_isBlank_eq_nil {s : List Char} :
    s.dropWhile isBlank = [] ↔ ∀ c ∈ s, isBlank c = true := by
  induction s with
  | nil => simp
  | cons c r ih =>
    cases hc : isBlank c with
    | true => simp [hc, ih]
    | false => simp [hc]

/-- A text trims to nothing if it has only blank characters. -/
theorem trim_eq_nil_iff {s : List Char} : trim s = [] ↔ ∀ c ∈ s, isBlank c = true := by
  constructor
  · intro h
    have hback : ∀ c ∈ s.dropWhile isBlank, isBlank c = true := by
      have hreverse : (s.dropWhile isBlank).reverse.dropWhile isBlank = [] := by
        simpa [trim, trimEnd] using h
      intro c hc
      exact dropWhile_isBlank_eq_nil.1 hreverse c (List.mem_reverse.2 hc)
    refine dropWhile_isBlank_eq_nil.1 ?_
    cases hs : s.dropWhile isBlank with
    | nil => rfl
    | cons c r =>
      have hblank : isBlank c = true := hback c (by simp [hs])
      have hhead := List.head?_dropWhile_not isBlank s
      simp [hs, hblank] at hhead
  · intro h
    simp [trim, trimEnd, dropWhile_isBlank_eq_nil.2 h]

/-- What is trimmed off a text are blanks at its ends. -/
theorem exists_trim (s : List Char) : ∃ front back, s = front ++ trim s ++ back ∧
    (∀ c ∈ front, isBlank c = true) ∧ ∀ c ∈ back, isBlank c = true := by
  have hkept : ∀ t : List Char, t = trimEnd t ++ (t.reverse.takeWhile isBlank).reverse := by
    intro t
    rw [trimEnd, ← List.reverse_append, List.takeWhile_append_dropWhile, List.reverse_reverse]
  refine ⟨s.takeWhile isBlank, ((s.dropWhile isBlank).reverse.takeWhile isBlank).reverse, ?_,
    List.all_eq_true.1 List.all_takeWhile, fun c hc => ?_⟩
  · rw [trim, List.append_assoc, ← hkept, List.takeWhile_append_dropWhile]
  · exact List.all_eq_true.1 List.all_takeWhile c (List.mem_reverse.1 hc)

/-- A text without blanks is trimmed out of the blanks around it. -/
theorem trim_append {front s back : List Char} (hfront : ∀ c ∈ front, isBlank c = true)
    (hs : ∀ c ∈ s, isBlank c = false) (hne : s ≠ []) (hback : ∀ c ∈ back, isBlank c = true) :
    trim (front ++ s ++ back) = s := by
  have hstop : ∀ {c : Char} {t : List Char}, isBlank c = false →
      (c :: t).dropWhile isBlank = c :: t := fun hc => List.dropWhile_cons_of_neg (by simp [hc])
  have hstart : (s ++ back).dropWhile isBlank = s ++ back := by
    obtain ⟨c, t, rfl⟩ := List.exists_cons_of_ne_nil hne
    exact hstop (hs c List.mem_cons_self)
  have hend : s.reverse.dropWhile isBlank = s.reverse := by
    obtain ⟨c, t, hc⟩ := List.exists_cons_of_ne_nil (List.reverse_ne_nil_iff.2 hne)
    have hmem : c ∈ s := List.mem_reverse.1 (by rw [hc]; exact List.mem_cons_self)
    rw [hc]
    exact hstop (hs c hmem)
  rw [trim, List.append_assoc, List.dropWhile_append_of_pos hfront, hstart, trimEnd,
    List.reverse_append, List.dropWhile_append_of_pos fun c hc => hback c (List.mem_reverse.1 hc),
    hend, List.reverse_reverse]

end WakeConfig.Text
