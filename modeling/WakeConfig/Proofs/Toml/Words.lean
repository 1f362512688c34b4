import WakeConfig.Proofs.Toml.Marking

/-!
# Words

A word is a text without a character that could end it. The readers of words look at most one
character ahead. So they read the same word from any text that starts with it and goes on in the
same way, which is what `Local` states of one run of a reader.
-/

namespace WakeConfig.Toml

open Text (isDigit)
open FloatLiteral (isDelimiter)

variable {α β : Type} {c : Char} {s t r mid rest : List Char}

/-! ## Characters of words -/

theorem not_delimiter_of_isBareKeyChar (h : isBareKeyChar c = true) : isDelimiter c = false := by
  cases hd : isDelimiter c with
  | false => rfl
  | true =>
    exfalso
    simp only [isDelimiter, Bool.or_eq_true, beq_iff_eq] at hd
    rcases hd with ((((((((hb | rfl) | rfl) | rfl) | rfl) | rfl) | rfl) | rfl) | rfl) | rfl
    · simp only [Text.isBlank, Bool.or_eq_true, Bool.and_eq_true, decide_eq_true_eq,
        beq_iff_eq] at hb
      simp only [isBareKeyChar, Bool.or_eq_true, Bool.and_eq_true, decide_eq_true_eq,
        beq_iff_eq, Char.le_def, UInt32.le_iff_toNat_le] at h
      have hn : c.toNat = c.val.toNat := rfl
      rcases h with (((h | h) | h) | rfl) | rfl
      · have h₁ : ('A' : Char).val.toNat = 65 := rfl
        have h₂ : ('Z' : Char).val.toNat = 90 := rfl
        omega
      · have h₁ : ('a' : Char).val.toNat = 97 := rfl
        have h₂ : ('z' : Char).val.toNat = 122 := rfl
        omega
      · have h₁ : ('0' : Char).val.toNat = 48 := rfl
        have h₂ : ('9' : Char).val.toNat = 57 := rfl
        omega
      · revert hb
        decide
      · revert hb
        decide
    all_goals
      revert h
      decide

theorem isBareKeyChar_of_isDigit (h : isDigit c = true) : isBareKeyChar c = true := by
  simp only [isDigit, Bool.and_eq_true, decide_eq_true_eq] at h
  simp [isBareKeyChar, h]

theorem not_delimiter_of_isDigit (h : isDigit c = true) : isDelimiter c = false :=
  not_delimiter_of_isBareKeyChar (isBareKeyChar_of_isDigit h)

theorem not_delimiter_of_isDigitOf {base : Nat} (h : Number.isDigitOf base c = true) :
    isDelimiter c = false := by
  refine not_delimiter_of_isBareKeyChar ?_
  unfold Number.isDigitOf Quoted.hexValue? at h
  unfold isBareKeyChar
  simp only [Bool.or_eq_true, Bool.and_eq_true, decide_eq_true_eq, beq_iff_eq]
  by_cases h₀ : '0' ≤ c ∧ c ≤ '9'
  · simp [h₀]
  · by_cases h₁ : 'a' ≤ c ∧ c ≤ 'f'
    · exact .inl (.inl (.inl (.inr ⟨h₁.1, Char.le_trans h₁.2 (by decide)⟩)))
    · by_cases h₂ : 'A' ≤ c ∧ c ≤ 'F'
      · exact .inl (.inl (.inl (.inl ⟨h₂.1, Char.le_trans h₂.2 (by decide)⟩)))
      · simp [h₀, h₁, h₂] at h

/-! ## Local runs -/

/-- One run of a reader that takes `src` and leaves `rest`: it takes a word, and takes it from any
text that starts in this way and goes on with the same character. -/
structure Local (read : List Char → Option β) (out : List Char → β) (src rest : List Char) :
    Prop where
  word : ∀ c ∈ src, isDelimiter c = false
  reads : ∀ r, r.head? = rest.head? → read (src ++ r) = some (out r)

theorem eq_cons_of_head? (h : r.head? = (c :: s).head?) : ∃ u, r = c :: u := by
  cases r with
  | nil => cases h
  | cons d u => exact ⟨u, by rw [Option.some.inj h]⟩

theorem eq_nil_of_head? (h : r.head? = ([] : List Char).head?) : r = [] := by
  cases r with
  | nil => rfl
  | cons d u => cases h

theorem head?_append_congr (src : List Char) (h : r.head? = rest.head?) :
    (src ++ r).head? = (src ++ rest).head? := by
  rw [List.head?_append, List.head?_append, h]

namespace Local

variable {f : List Char → Read α} {g k : List Char → Option β} {out : List Char → β} {a : α}
  {src src' : List Char}

/-- A run that takes nothing. -/
theorem nothing (h : ∀ r, r.head? = rest.head? → g r = some (out r)) : Local g out [] rest :=
  ⟨by simp, h⟩

/-- A run that takes one character before another run. -/
theorem cons (hc : isDelimiter c = false) (h : Local g out src rest)
    (hk : ∀ t, t.head? = (src ++ rest).head? → k (c :: t) = g t) :
    Local k out (c :: src) rest := by
  refine ⟨?_, fun r hr => ?_⟩
  · rintro x (_ | ⟨_, hx⟩)
    · exact hc
    · exact h.word x hx
  · rw [List.cons_append, hk _ (head?_append_congr src hr), h.reads r hr]

/-- Two runs after one another. -/
theorem andThen (h : Local f (fun r => (a, r)) src (src' ++ rest)) (h' : Local g out src' rest)
    (hk : ∀ u, u.head? = (src' ++ rest).head? → f (src ++ u) = some (a, u) →
      k (src ++ u) = g u) :
    Local k out (src ++ src') rest := by
  refine ⟨?_, fun r hr => ?_⟩
  · intro x hx
    exact (List.mem_append.1 hx).elim (h.word x) (h'.word x)
  · have hh := head?_append_congr src' hr
    rw [List.append_assoc, hk _ hh (h.reads _ hh), h'.reads r hr]

/-- What a run gives may be changed. -/
theorem map {γ : Type} {k : List Char → Option γ} (e : β → γ) (h : Local g out src rest)
    (hk : ∀ r, r.head? = rest.head? → k (src ++ r) = (g (src ++ r)).map e) :
    Local k (fun r => e (out r)) src rest :=
  ⟨h.word, fun r hr => by rw [hk r hr, h.reads r hr, Option.map_some]⟩

/-- The run itself. -/
theorem run (h : Local g out src rest) : g (src ++ rest) = some (out rest) := h.reads rest rfl

end Local

end WakeConfig.Toml
