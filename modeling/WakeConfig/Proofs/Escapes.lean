import Mathlib.Data.List.Infix
import Mathlib.Data.List.Nodup
import WakeConfig.Text.Escape

/-!
# Escapes in one pass

The replacements of `decodeEscapes` go over the whole text one after the other. A text falls into
runs of backslashes with one other character behind each, and no replacement reaches from one run
into the next. `decodeRuns` decodes a text run by run, and `decodeEscapes_eq_decodeRuns` says that
this is the same. `decodeEscapes_range` says which texts can be written with escapes at all.
-/

namespace WakeConfig.Text

variable {b c r : Char} {k : Nat} {s t : List Char} {pairs : List (Char × Char)} {p : Char × Char}

/-! ## Runs of backslashes -/

/-- The last backslash of a run. -/
theorem run_succ (k : Nat) (s : List Char) :
    List.replicate (k + 1) '\\' ++ s = .replicate k '\\' ++ '\\' :: s := by
  rw [List.replicate_succ', List.append_assoc, List.singleton_append]

/-- A text is a run of backslashes, or such a run with another character and a text behind it. -/
@[elab_as_elim]
theorem run_induction {motive : List Char → Prop}
    (ends : ∀ k, motive (.replicate k '\\'))
    (goesOn : ∀ k c s, c ≠ '\\' → motive s → motive (.replicate k '\\' ++ c :: s))
    (s : List Char) : motive s := by
  suffices h : ∀ k, motive (.replicate k '\\' ++ s) from h 0
  induction s with
  | nil => simpa using ends
  | cons c s ih =>
    intro k
    by_cases hc : c = '\\'
    · subst hc
      rw [← run_succ]
      exact ih (k + 1)
    · exact goesOn k c s hc (ih 0)

/-- A backslash with another character behind it is found at the end of a run, or behind it. -/
theorem pair_infix_run (hb : b ≠ '\\') (hc : c ≠ '\\') :
    ['\\', b] <:+: .replicate k '\\' ++ c :: s ↔ (0 < k ∧ c = b) ∨ ['\\', b] <:+: s := by
  induction k with
  | zero => simp [List.infix_cons_iff, hc.symm]
  | succ k ih =>
    cases k with
    | zero => simp [List.replicate_succ, List.infix_cons_iff, hc.symm, eq_comm]
    | succ k =>
      rw [List.replicate_succ, List.cons_append, List.infix_cons_iff, ih]
      simp [List.replicate_succ, hb]

theorem not_pair_infix_replicate (hb : b ≠ '\\') : ¬['\\', b] <:+: .replicate k '\\' := by
  intro h
  have hmem : b ∈ List.replicate k '\\' := h.subset (by simp)
  exact hb (List.eq_of_mem_replicate hmem)

/-! ## One replacement -/

theorem replacePair_cons_of_ne (hc : c ≠ '\\') (s : List Char) :
    replacePair '\\' b r (c :: s) = c :: replacePair '\\' b r s := by
  cases s with
  | nil => rfl
  | cons d s => simp [replacePair, hc]

/-- The replacement of a letter passes over all backslashes of a run but the last. -/
theorem replacePair_backslashes (hb : b ≠ '\\') (k : Nat) (s : List Char) :
    replacePair '\\' b r (.replicate k '\\' ++ '\\' :: s)
      = .replicate k '\\' ++ replacePair '\\' b r ('\\' :: s) := by
  induction k with
  | zero => rfl
  | succ k ih =>
    obtain ⟨u, hu⟩ : ∃ u, List.replicate k '\\' ++ '\\' :: s = '\\' :: u := by
      cases k <;> simp [List.replicate_succ]
    rw [List.replicate_succ, List.cons_append, List.cons_append, ← ih, hu, replacePair,
      if_neg (by simp [hb.symm])]

theorem replacePair_replicate (hb : b ≠ '\\') (k : Nat) :
    replacePair '\\' b r (.replicate k '\\') = .replicate k '\\' := by
  cases k with
  | zero => rfl
  | succ k =>
    rw [List.replicate_succ', replacePair_backslashes hb]
    rfl

/-- A run in front of a letter loses its last backslash when the letter is replaced. -/
theorem replacePair_run (hb : b ≠ '\\') (k : Nat) (s : List Char) :
    replacePair '\\' b r (.replicate (k + 1) '\\' ++ b :: s)
      = .replicate k '\\' ++ r :: replacePair '\\' b r s := by
  rw [run_succ, replacePair_backslashes hb]
  simp [replacePair]

/-- A run that another character ends is left alone. -/
theorem replacePair_run_of_ne (hb : b ≠ '\\') (hc : c ≠ '\\') (hk : k = 0 ∨ c ≠ b)
    (s : List Char) :
    replacePair '\\' b r (.replicate k '\\' ++ c :: s)
      = .replicate k '\\' ++ c :: replacePair '\\' b r s := by
  cases k with
  | zero => exact replacePair_cons_of_ne hc s
  | succ k =>
    have hcb : c ≠ b := hk.resolve_left (by simp)
    rw [run_succ, run_succ, replacePair_backslashes hb, replacePair, if_neg (by simp [hcb]),
      replacePair_cons_of_ne hc]

/-- Half of a number, rounded up. -/
def halfUp (n : Nat) : Nat := (n + 1) / 2

theorem halfUp_le (k : Nat) : halfUp k ≤ k := by
  unfold halfUp
  omega

/-- The replacement of double backslashes leaves half of a run, rounded up. -/
theorem replacePair_halves (hs : s.head? ≠ some '\\') :
    ∀ k, replacePair '\\' '\\' '\\' (.replicate k '\\' ++ s)
      = .replicate (halfUp k) '\\' ++ replacePair '\\' '\\' '\\' s
  | 0 => rfl
  | 1 => by
    cases s with
    | nil => rfl
    | cons c s =>
      have hc : c ≠ '\\' := by simpa using hs
      show replacePair '\\' '\\' '\\' ('\\' :: c :: s) = '\\' :: replacePair '\\' '\\' '\\' (c :: s)
      rw [replacePair, if_neg (by simp [hc])]
  | k + 2 => by
    have hk : halfUp (k + 2) = halfUp k + 1 := by
      unfold halfUp
      omega
    rw [hk, List.replicate_succ, List.replicate_succ, List.replicate_succ, List.cons_append,
      List.cons_append, List.cons_append, replacePair, if_pos ⟨rfl, rfl⟩, replacePair_halves hs k]

/-! ## Replacements of letters -/

/-- The letters of the escapes, with the characters that they stand for behind a backslash. -/
def escapeLetters : List (Char × Char) := [('n', '\n'), ('r', '\r'), ('t', '\t')]

/-- Replaces the escapes of letters one after the other, each over the whole text. -/
def replaceLetters (pairs : List (Char × Char)) (s : List Char) : List Char :=
  pairs.foldl (fun s p => replacePair '\\' p.1 p.2 s) s

/-- Letters that can be replaced in any order: they differ, and what a letter stands for is neither
a backslash nor a letter. -/
structure Apart (pairs : List (Char × Char)) : Prop where
  nodup : (pairs.map Prod.fst).Nodup
  letter : ∀ p ∈ pairs, p.1 ≠ '\\'
  stands : ∀ p ∈ pairs, p.2 ≠ '\\' ∧ ∀ q ∈ pairs, p.2 ≠ q.1

theorem apart_escapeLetters : Apart escapeLetters := ⟨by decide, by decide, by decide⟩

namespace Apart

theorem of_perm {order : List (Char × Char)} (h : Apart pairs) (ho : order.Perm pairs) :
    Apart order := by
  refine ⟨(ho.map Prod.fst).nodup_iff.2 h.nodup, fun p hp => h.letter p (ho.subset hp),
    fun p hp => ?_⟩
  obtain ⟨hb, hq⟩ := h.stands p (ho.subset hp)
  exact ⟨hb, fun q hq' => hq q (ho.subset hq')⟩

theorem of_sublist {part : List (Char × Char)} (h : Apart pairs) (hs : part.Sublist pairs) :
    Apart part := by
  refine ⟨h.nodup.sublist (hs.map Prod.fst), fun p hp => h.letter p (hs.subset hp),
    fun p hp => ?_⟩
  obtain ⟨hb, hq⟩ := h.stands p (hs.subset hp)
  exact ⟨hb, fun q hq' => hq q (hs.subset hq')⟩

theorem tail (h : Apart (p :: pairs)) : Apart pairs := h.of_sublist (List.sublist_cons_self ..)

end Apart

/-- A run has no backslash or ends at no letter, or it has one and ends at a letter. -/
theorem run_cases (pairs : List (Char × Char)) (k : Nat) (c : Char) :
    (k = 0 ∨ ∀ p ∈ pairs, c ≠ p.1) ∨ ∃ j, ∃ p ∈ pairs, k = j + 1 ∧ c = p.1 := by
  by_cases hk : k = 0 ∨ ∀ p ∈ pairs, c ≠ p.1
  · exact .inl hk
  · push Not at hk
    obtain ⟨hk, p, hp, hc⟩ := hk
    obtain ⟨j, hj⟩ := Nat.exists_eq_succ_of_ne_zero hk
    exact .inr ⟨j, p, hp, hj, hc⟩

theorem replaceLetters_cons (p : Char × Char) (pairs : List (Char × Char)) (s : List Char) :
    replaceLetters (p :: pairs) s = replaceLetters pairs (replacePair '\\' p.1 p.2 s) := rfl

theorem replaceLetters_replicate (h : Apart pairs) (k : Nat) :
    replaceLetters pairs (.replicate k '\\') = .replicate k '\\' := by
  induction pairs with
  | nil => rfl
  | cons p pairs ih =>
    rw [replaceLetters_cons, replacePair_replicate (h.letter p List.mem_cons_self), ih h.tail]

/-- A run that no letter ends is left alone. -/
theorem replaceLetters_run_of_ne (h : Apart pairs) (hc : c ≠ '\\')
    (hk : k = 0 ∨ ∀ p ∈ pairs, c ≠ p.1) (s : List Char) :
    replaceLetters pairs (.replicate k '\\' ++ c :: s)
      = .replicate k '\\' ++ c :: replaceLetters pairs s := by
  induction pairs generalizing s with
  | nil => rfl
  | cons p pairs ih =>
    rw [replaceLetters_cons, replacePair_run_of_ne (h.letter p List.mem_cons_self) hc
      (hk.imp_right fun hk => hk p List.mem_cons_self), replaceLetters_cons]
    exact ih h.tail (hk.imp_right fun hk q hq => hk q (List.mem_cons_of_mem p hq)) _

/-- A run in front of a letter loses a backslash, and the letter becomes what it stands for. -/
theorem replaceLetters_run (h : Apart pairs) (hp : p ∈ pairs) (k : Nat) (s : List Char) :
    replaceLetters pairs (.replicate (k + 1) '\\' ++ p.1 :: s)
      = .replicate k '\\' ++ p.2 :: replaceLetters pairs s := by
  induction pairs generalizing s with
  | nil => cases hp
  | cons q pairs ih =>
    have hq := h.letter q List.mem_cons_self
    rw [replaceLetters_cons, replaceLetters_cons]
    rcases List.mem_cons.1 hp with rfl | hp
    · obtain ⟨hbackslash, hletters⟩ := h.stands p List.mem_cons_self
      rw [replacePair_run hq]
      exact replaceLetters_run_of_ne h.tail hbackslash
        (.inr fun q hq => hletters q (List.mem_cons_of_mem p hq)) _
    · have hne : p.1 ≠ q.1 := by
        have hnot := (List.nodup_cons.1 h.nodup).1
        intro he
        exact hnot (he ▸ List.mem_map_of_mem hp)
      have hpb := h.letter p (List.mem_cons_of_mem q hp)
      rw [replacePair_run_of_ne hq hpb (.inr hne)]
      exact ih h.tail hp _

/-- Letters may be replaced in any order. -/
theorem replaceLetters_perm {order : List (Char × Char)} (h : Apart pairs)
    (ho : order.Perm pairs) (s : List Char) :
    replaceLetters order s = replaceLetters pairs s := by
  have horder := h.of_perm ho
  induction s using run_induction with
  | ends k => rw [replaceLetters_replicate horder, replaceLetters_replicate h]
  | goesOn k c s hc ih =>
    obtain hk | ⟨k, p, hp, rfl, rfl⟩ := run_cases pairs k c
    · rw [replaceLetters_run_of_ne h hc hk, replaceLetters_run_of_ne horder hc, ih]
      exact hk.imp_right fun hk p hp => hk p (ho.subset hp)
    · rw [replaceLetters_run h hp, replaceLetters_run horder (ho.symm.subset hp), ih]

/-- A letter that was replaced is behind no backslash any more. -/
theorem not_pair_infix_replaceLetters (h : Apart pairs) (hp : p ∈ pairs) (s : List Char) :
    ¬['\\', p.1] <:+: replaceLetters pairs s := by
  have hb := h.letter p hp
  induction s using run_induction with
  | ends k =>
    rw [replaceLetters_replicate h]
    exact not_pair_infix_replicate hb
  | goesOn k c s hc ih =>
    obtain hk | ⟨k, q, hq, rfl, rfl⟩ := run_cases pairs k c
    · rw [replaceLetters_run_of_ne h hc hk, pair_infix_run hb hc]
      rintro (⟨hpos, rfl⟩ | hs)
      · rcases hk with rfl | hk
        · exact absurd hpos (by simp)
        · exact hk p hp rfl
      · exact ih hs
    · obtain ⟨hqb, hqp⟩ := h.stands q hq
      rw [replaceLetters_run h hq, pair_infix_run hb hqb]
      rintro (⟨-, he⟩ | hs)
      · exact hqp p hp he
      · exact ih hs

/-! ## One pass -/

/-- What a run of `k` backslashes and the character behind it become. A letter takes the last
backslash with it; half of the others are left, rounded up. -/
def decodeRun (k : Nat) (c : Char) : List Char :=
  match escapeLetters.lookup c with
  | some x => if k = 0 then [c] else .replicate (halfUp (k - 1)) '\\' ++ [x]
  | none => .replicate (halfUp k) '\\' ++ [c]

/-- Decodes a text in one pass from left to right; `k` backslashes have been read in front of
it. -/
def decodeRuns (k : Nat) : List Char → List Char
  | [] => .replicate (halfUp k) '\\'
  | c :: s => if c = '\\' then decodeRuns (k + 1) s else decodeRun k c ++ decodeRuns 0 s

theorem decodeRun_letter (hp : p ∈ escapeLetters) (k : Nat) (s : List Char) :
    decodeRun (k + 1) p.1 ++ s = .replicate (halfUp k) '\\' ++ p.2 :: s := by
  have hlookup : ∀ p ∈ escapeLetters, escapeLetters.lookup p.1 = some p.2 := by decide
  simp [decodeRun, hlookup p hp]

theorem decodeRun_of_ne (hk : k = 0 ∨ ∀ p ∈ escapeLetters, c ≠ p.1) (s : List Char) :
    decodeRun k c ++ s = .replicate (halfUp k) '\\' ++ c :: s := by
  unfold decodeRun
  cases hx : escapeLetters.lookup c with
  | none => simp
  | some x =>
    obtain ⟨front, back, he, -⟩ := List.lookup_eq_some_iff.1 hx
    have hmem : (c, x) ∈ escapeLetters := by simp [he]
    rcases hk with rfl | hk
    · rfl
    · exact absurd rfl (hk _ hmem)

theorem decodeEscapes_eq_replaceLetters (s : List Char) :
    decodeEscapes s = replacePair '\\' '\\' '\\' (replaceLetters escapeLetters s) := rfl

theorem decodeEscapes_replicate (k : Nat) :
    decodeEscapes (.replicate k '\\') = .replicate (halfUp k) '\\' := by
  have h := replacePair_halves (s := []) (by simp) k
  rw [decodeEscapes_eq_replaceLetters, replaceLetters_replicate apart_escapeLetters]
  simpa [replacePair] using h

/-- A text is decoded run by run. -/
theorem decodeEscapes_run (hc : c ≠ '\\') (k : Nat) (s : List Char) :
    decodeEscapes (.replicate k '\\' ++ c :: s) = decodeRun k c ++ decodeEscapes s := by
  have h := apart_escapeLetters
  simp only [decodeEscapes_eq_replaceLetters]
  obtain hk | ⟨k, p, hp, rfl, rfl⟩ := run_cases escapeLetters k c
  · rw [replaceLetters_run_of_ne h hc hk, replacePair_halves (by simp [hc]),
      replacePair_cons_of_ne hc, decodeRun_of_ne hk]
  · have hpb := (h.stands p hp).1
    rw [replaceLetters_run h hp, replacePair_halves (by simp [hpb]), replacePair_cons_of_ne hpb,
      decodeRun_letter hp]

theorem decodeRuns_replicate (j k : Nat) (s : List Char) :
    decodeRuns j (.replicate k '\\' ++ s) = decodeRuns (j + k) s := by
  induction k generalizing j with
  | zero => rfl
  | succ k ih =>
    rw [List.replicate_succ, List.cons_append, decodeRuns, if_pos rfl, ih, Nat.succ_add_eq_add_succ]

theorem decodeRuns_run (hc : c ≠ '\\') (k : Nat) (s : List Char) :
    decodeRuns 0 (.replicate k '\\' ++ c :: s) = decodeRun k c ++ decodeRuns 0 s := by
  rw [decodeRuns_replicate, decodeRuns, if_neg hc, Nat.zero_add]

/-- The pass gives what the replacements give. -/
theorem decodeRuns_zero (s : List Char) : decodeRuns 0 s = decodeEscapes s := by
  induction s using run_induction with
  | ends k =>
    have hruns := decodeRuns_replicate 0 k []
    rw [List.append_nil, Nat.zero_add] at hruns
    rw [decodeEscapes_replicate, hruns, decodeRuns]
  | goesOn k c s hc ih => rw [decodeEscapes_run hc, decodeRuns_run hc, ih]

/-! ## What is left -/

/-- No letter of an escape is behind a backslash. -/
def EscapeFree (s : List Char) : Prop := ∀ p ∈ escapeLetters, ¬['\\', p.1] <:+: s

theorem escapeFree_run (hc : c ≠ '\\') (k : Nat) (s : List Char) :
    EscapeFree (.replicate k '\\' ++ c :: s) ↔
      (k = 0 ∨ ∀ p ∈ escapeLetters, c ≠ p.1) ∧ EscapeFree s := by
  have hrun : ∀ p ∈ escapeLetters, (¬['\\', p.1] <:+: .replicate k '\\' ++ c :: s ↔
      (k = 0 ∨ c ≠ p.1) ∧ ¬['\\', p.1] <:+: s) := by
    intro p hp
    rw [pair_infix_run (apart_escapeLetters.letter p hp) hc, not_or, not_and_or,
      Nat.pos_iff_ne_zero, not_not]
  constructor
  · intro h
    refine ⟨or_iff_not_imp_left.2 fun hk p hp => ?_, fun p hp => ((hrun p hp).1 (h p hp)).2⟩
    exact ((hrun p hp).1 (h p hp)).1.resolve_left hk
  · rintro ⟨hk, hs⟩ p hp
    exact (hrun p hp).2 ⟨hk.imp_right fun hk => hk p hp, hs p hp⟩

theorem escapeFree_replicate (k : Nat) : EscapeFree (.replicate k '\\') := fun p hp =>
  not_pair_infix_replicate (apart_escapeLetters.letter p hp)

theorem escapeFree_decodeEscapes (s : List Char) : EscapeFree (decodeEscapes s) := by
  induction s using run_induction with
  | ends k =>
    rw [decodeEscapes_replicate]
    exact escapeFree_replicate _
  | goesOn k c s hc ih =>
    rw [decodeEscapes_run hc]
    obtain hk | ⟨k, q, hq, rfl, rfl⟩ := run_cases escapeLetters k c
    · rw [decodeRun_of_ne hk, escapeFree_run hc]
      refine ⟨hk.imp_left ?_, ih⟩
      rintro rfl
      rfl
    · obtain ⟨hb, hne⟩ := apart_escapeLetters.stands q hq
      rw [decodeRun_letter hq, escapeFree_run hb]
      exact ⟨.inr hne, ih⟩

/-- Decoding leaves at most as many characters of a kind as there are, if a letter is of the kind
where what it stands for is. -/
theorem countP_decodeEscapes_le (kind : Char → Bool)
    (h : ∀ p ∈ escapeLetters, kind p.2 = true → kind p.1 = true) (s : List Char) :
    (decodeEscapes s).countP kind ≤ s.countP kind := by
  have hhalf : ∀ k, (List.replicate (halfUp k) '\\').countP kind
      ≤ (List.replicate k '\\').countP kind := by
    intro k
    have hsub := (List.replicate_sublist_replicate '\\').2 (halfUp_le k)
    exact hsub.countP_le
  induction s using run_induction with
  | ends k => simpa only [decodeEscapes_replicate] using hhalf k
  | goesOn k c s hc ih =>
    rw [decodeEscapes_run hc]
    obtain hends | ⟨k, p, hp, rfl, rfl⟩ := run_cases escapeLetters k c
    · have hk := hhalf k
      simp only [decodeRun_of_ne hends, List.countP_append, List.countP_cons]
      omega
    · have hk := hhalf k
      have hletter : (if kind p.2 = true then 1 else 0) ≤ if kind p.1 = true then 1 else 0 := by
        split
        · rename_i hkind
          simp [h p hp hkind]
        · simp
      simp only [decodeRun_letter hp, List.replicate_succ, List.cons_append, List.countP_append,
        List.countP_cons]
      omega

theorem length_decodeEscapes_le (s : List Char) : (decodeEscapes s).length ≤ s.length := by
  simpa using countP_decodeEscapes_le (fun _ => true) (by decide) s

/-- The length of a text in UTF-16 units: a character beyond the first 65536 has two. -/
def units (s : List Char) : Nat := s.length + s.countP fun c => decide (0x10000 ≤ c.toNat)

theorem units_decodeEscapes_le (s : List Char) : units (decodeEscapes s) ≤ units s :=
  Nat.add_le_add (length_decodeEscapes_le s) (countP_decodeEscapes_le _ (by decide) s)

/-- **The replacements are one pass.** The four replacements of a text give what one pass over its
runs of backslashes gives. The first three of them may be made in any order; no replacement makes an
escape that an earlier one has replaced, and none is left at the end. The result is never longer. -/
theorem decodeEscapes_eq_decodeRuns (s : List Char) :
    decodeEscapes s = decodeRuns 0 s ∧
    (∀ order, order.Perm escapeLetters →
      replacePair '\\' '\\' '\\' (replaceLetters order s) = decodeEscapes s ∧
      ∀ made, made <+: order → ∀ p ∈ made, ¬['\\', p.1] <:+: replaceLetters made s) ∧
    EscapeFree (decodeEscapes s) ∧
    (decodeEscapes s).length ≤ s.length ∧ units (decodeEscapes s) ≤ units s := by
  refine ⟨(decodeRuns_zero s).symm, fun order ho => ⟨?_, fun made hmade p hp => ?_⟩,
    escapeFree_decodeEscapes s, length_decodeEscapes_le s, units_decodeEscapes_le s⟩
  · rw [replaceLetters_perm apart_escapeLetters ho, decodeEscapes_eq_replaceLetters]
  · have hapart := (apart_escapeLetters.of_perm ho).of_sublist hmade.sublist
    exact not_pair_infix_replaceLetters hapart hp s

/-- Two backslashes in front of a letter are a backslash and what the letter stands for, and the
order of the first three replacements does not matter. -/
theorem decodeEscapes_eq_decodeRuns_twoBackslashes :
    [('t', '\t'), ('n', '\n'), ('r', '\r')].Perm escapeLetters ∧
      replacePair '\\' '\\' '\\'
        (replaceLetters [('t', '\t'), ('n', '\n'), ('r', '\r')] ['\\', '\\', 't'])
        = decodeEscapes ['\\', '\\', 't'] ∧
      decodeEscapes ['\\', '\\', 't'] = ['\\', '\t'] :=
  have hperm : [('t', '\t'), ('n', '\n'), ('r', '\r')].Perm escapeLetters := by decide
  ⟨hperm, ((decodeEscapes_eq_decodeRuns _).2.1 _ hperm).1, by decide⟩

/-! ## What can be written -/

/-- A text with each backslash written twice. -/
def doubleBackslashes (s : List Char) : List Char :=
  s.flatMap fun c => if c = '\\' then ['\\', '\\'] else [c]

theorem doubleBackslashes_replicate (k : Nat) :
    doubleBackslashes (.replicate k '\\') = .replicate (2 * k) '\\' := by
  induction k with
  | zero => rfl
  | succ k ih =>
    rw [Nat.mul_succ, List.replicate_succ, List.replicate_succ, List.replicate_succ, ← ih]
    rfl

theorem doubleBackslashes_run (hc : c ≠ '\\') (k : Nat) (s : List Char) :
    doubleBackslashes (.replicate k '\\' ++ c :: s)
      = .replicate (2 * k) '\\' ++ c :: doubleBackslashes s := by
  rw [← doubleBackslashes_replicate]
  simp [doubleBackslashes, hc]

theorem halfUp_double (k : Nat) : halfUp (2 * k) = k := by
  unfold halfUp
  omega

/-- Backslashes that are written twice are read once where no escape is. -/
theorem decodeEscapes_doubleBackslashes (h : EscapeFree t) :
    decodeEscapes (doubleBackslashes t) = t := by
  induction t using run_induction with
  | ends k => rw [doubleBackslashes_replicate, decodeEscapes_replicate, halfUp_double]
  | goesOn k c t hc ih =>
    obtain ⟨hk, ht⟩ := (escapeFree_run hc k t).1 h
    have hk' : 2 * k = 0 ∨ ∀ p ∈ escapeLetters, c ≠ p.1 := hk.imp_left fun hk => by rw [hk]
    rw [doubleBackslashes_run hc, decodeEscapes_run hc, decodeRun_of_ne hk', halfUp_double, ih ht]

/-- **What can be written with escapes.** The texts that decoding gives are those in which no
backslash is in front of `n`, `r` or `t`; and each of these is what is decoded of it with its
backslashes doubled and all else as it is. -/
theorem decodeEscapes_range (t : List Char) :
    ((∃ s, decodeEscapes s = t) ↔ ∀ letter ∈ ['n', 'r', 't'], ¬['\\', letter] <:+: t) ∧
    ((∀ letter ∈ ['n', 'r', 't'], ¬['\\', letter] <:+: t) →
      decodeEscapes (doubleBackslashes t) = t) := by
  have hfree : EscapeFree t ↔ ∀ letter ∈ ['n', 'r', 't'], ¬['\\', letter] <:+: t := by
    simp [EscapeFree, escapeLetters]
  rw [← hfree]
  refine ⟨⟨?_, fun h => ⟨_, decodeEscapes_doubleBackslashes h⟩⟩, decodeEscapes_doubleBackslashes⟩
  rintro ⟨s, rfl⟩
  exact escapeFree_decodeEscapes s

/-- A line break with a backslash in front of it can be written; the letter would be lost. -/
theorem decodeEscapes_range_lineBreak :
    (∀ letter ∈ ['n', 'r', 't'], ¬['\\', letter] <:+: ['\\', '\n', 'n']) ∧
      decodeEscapes ['\\', '\\', '\n', 'n'] = ['\\', '\n', 'n'] :=
  have hfree : ∀ letter ∈ ['n', 'r', 't'], ¬['\\', letter] <:+: ['\\', '\n', 'n'] := by
    simp [List.infix_cons_iff]
  ⟨hfree, (decodeEscapes_range _).2 hfree⟩

end WakeConfig.Text
