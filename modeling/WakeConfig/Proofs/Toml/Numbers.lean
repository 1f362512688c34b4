import WakeConfig.Proofs.Toml.Words

/-!
# Numbers as words

A number is read as one word, and the reader looks at most one character behind it. What it reads
as a float is a float token, but for a word that is left unfinished (`endsOpen`).
-/

namespace WakeConfig.Toml

open Text (isDigit)
open FloatLiteral (isDelimiter)

variable {α β : Type} {c : Char} {s t r mid rest : List Char}

namespace Number

open FloatLiteral (dropDigits dropRun? dropSign isExponent isExponentPart isFloatTail isFloatToken)

variable {digit halts : Char → Bool} {ds src : List Char}

theorem goesOn_congr (h : t.head? = s.head?) : goesOn halts t = goesOn halts s := by
  cases s with
  | nil => rw [eq_nil_of_head? h]
  | cons c s =>
    obtain ⟨u, rfl⟩ := eq_cons_of_head? h
    rfl

theorem local_digitRun (hd : ∀ c, digit c = true → isDelimiter c = false)
    (h : digitRun digit halts s = some (ds, rest)) :
    ∃ src, s = src ++ rest ∧ (∀ c ∈ src, digit c = true ∨ c = '_') ∧
      (∀ c ∈ rest.head?, digit c = false ∧ c ≠ '_') ∧
      Local (digitRun digit halts) (fun r => (ds, r)) src rest := by
  induction s generalizing ds with
  | nil =>
    obtain ⟨rfl, rfl⟩ : ds = [] ∧ rest = [] := by simpa [digitRun, eq_comm] using h
    refine ⟨[], rfl, by simp, by simp, Local.nothing fun r hr => ?_⟩
    rw [eq_nil_of_head? hr, digitRun]
  | cons c s ih =>
    rw [digitRun] at h
    split at h
    · rename_i hc
      obtain ⟨⟨ds', rest'⟩, hs, he⟩ := Option.map_eq_some_iff.1 h
      obtain ⟨rfl, rfl⟩ := Prod.mk.inj he
      obtain ⟨src, rfl, hw, he, hl⟩ := ih hs
      refine ⟨c :: src, rfl, by simpa [hc] using hw, he, ?_⟩
      refine Local.cons (hd c hc) (hl.map (fun p => (c :: p.1, p.2)) (k :=
        fun t => Quoted.push c (digitRun digit halts t)) fun _ _ => rfl) fun t _ => ?_
      rw [digitRun, if_pos hc]
    · rename_i hc
      split at h
      · rename_i hu
        split at h
        · rename_i hg
          obtain ⟨src, rfl, hw, he, hl⟩ := ih h
          refine ⟨c :: src, rfl, by simpa [hu] using hw, he, ?_⟩
          refine Local.cons (by rw [hu]; decide) hl fun t ht => ?_
          rw [digitRun, if_neg hc, if_pos hu, if_pos (by rw [goesOn_congr ht, hg])]
        · cases h
      · rename_i hu
        obtain ⟨rfl, rfl⟩ := Prod.mk.inj (Option.some.inj h)
        refine ⟨[], rfl, by simp, by simp [hc, hu], Local.nothing fun r hr => ?_⟩
        obtain ⟨u, rfl⟩ := eq_cons_of_head? hr
        rw [digitRun, if_neg hc, if_neg hu]

/-- Whether a word ends in a character that something of a number should follow. -/
def endsOpen (w : List Char) : Bool :=
  w.getLast?.any fun c => c == '.' || c == '_' || c == '+' || c == '-'

theorem endsOpen_append (w : List Char) {u : List Char} (h : u ≠ []) :
    endsOpen (w ++ u) = endsOpen u := by
  unfold endsOpen
  rw [List.getLast?_append, List.getLast?_eq_some_getLast h, Option.some_or]

theorem endsOpen_cons (c : Char) {u : List Char} (h : u ≠ []) :
    endsOpen (c :: u) = endsOpen u := endsOpen_append [c] h

/-- Neither a digit nor an underscore follows. -/
def EndsRun (t : List Char) : Prop := ∀ c ∈ t.head?, isDigit c = false ∧ c ≠ '_'

theorem dropDigits_of_endsRun (h : EndsRun t) : dropDigits t = t := by
  cases t with
  | nil => rfl
  | cons c t =>
    obtain ⟨hc, hu⟩ := h c rfl
    unfold dropDigits
    split <;> simp_all

theorem dropDigits_digit (h : isDigit c = true) (s : List Char) :
    dropDigits (c :: s) = dropDigits s := by
  have hu : c ≠ '_' := by rintro rfl; revert h; decide
  rw [FloatLiteral.dropDigits.eq_def]
  split <;> simp_all

theorem dropDigits_digits (h : ∀ c ∈ src, isDigit c = true) (t : List Char) :
    dropDigits (src ++ t) = dropDigits t := by
  induction src with
  | nil => rfl
  | cons c src ih =>
    rw [List.cons_append, dropDigits_digit (h c List.mem_cons_self)]
    exact ih fun x hx => h x (List.mem_cons_of_mem c hx)

/-- What is read as a run of digits is a run of digits, unless it ends in an underscore; before a
character that halts it never does. -/
theorem dropDigits_run (hw : ∀ c ∈ src, isDigit c = true ∨ c = '_')
    (h : digitRun isDigit haltsDecimal (src ++ rest) = some (ds, rest)) (ht : EndsRun t)
    (hf : endsOpen src = false ∨ ∃ c ∈ rest.head?, haltsDecimal c = true) :
    dropDigits (src ++ t) = t := by
  induction src generalizing ds with
  | nil => exact dropDigits_of_endsRun ht
  | cons c src ih =>
    have ihs : ∀ {ds}, digitRun isDigit haltsDecimal (src ++ rest) = some (ds, rest) →
        (src = [] → isDigit c = true) → dropDigits (src ++ t) = t := by
      intro ds hs hn
      cases src with
      | nil => exact dropDigits_of_endsRun ht
      | cons d src =>
        refine ih (fun x hx => hw x (List.mem_cons_of_mem c hx)) hs ?_
        rwa [endsOpen_cons c (List.cons_ne_nil d src)] at hf
    rw [List.cons_append, digitRun] at h
    split at h
    · rename_i hc
      obtain ⟨⟨ds', rest'⟩, hs, he⟩ := Option.map_eq_some_iff.1 h
      obtain ⟨rfl, rfl⟩ := Prod.mk.inj he
      rw [List.cons_append, dropDigits_digit hc, ihs hs fun _ => hc]
    · rename_i hc
      obtain rfl : c = '_' := (hw c List.mem_cons_self).resolve_left hc
      rw [if_pos rfl] at h
      split at h
      · rename_i hg
        cases src with
        | nil =>
          -- the underscore is the last character: nothing that halts follows it
          exfalso
          rcases hf with hf | ⟨x, hx, hf⟩
          · cases hf
          · cases rest with
            | nil => cases hx
            | cons d rest =>
              obtain rfl : d = x := by simpa using hx
              simp [goesOn, hf] at hg
        | cons d src =>
          have hd : isDigit d = true := by
            refine (hw d (by simp)).resolve_right ?_
            rintro rfl
            revert hg
            simp [goesOn, haltsDecimal]
          have hs := ihs h (by simp)
          rw [List.cons_append, dropDigits_digit hd] at hs
          rw [List.cons_append, List.cons_append, dropDigits, if_pos hd, hs]
      · cases h

/-- A run of digits that has been read, with what it is as a part of a float. -/
structure IsRun (ds src rest : List Char) : Prop where
  reads : Local (digitRun isDigit haltsDecimal) (fun r => (ds, r)) src rest
  digits : ∀ c ∈ src, isDigit c = true ∨ c = '_'
  ends : EndsRun rest
  dropRun : ∀ t, src ≠ [] → EndsRun t →
    (endsOpen src = false ∨ ∃ c ∈ rest.head?, haltsDecimal c = true) →
    dropRun? (src ++ t) = some t

theorem exists_run (hg : goesOn haltsDecimal s = true)
    (h : digitRun isDigit haltsDecimal s = some (ds, rest)) :
    ∃ src, s = src ++ rest ∧ IsRun ds src rest := by
  obtain ⟨src, rfl, hw, he, hl⟩ := local_digitRun (fun _ => not_delimiter_of_isDigit) h
  refine ⟨src, rfl, hl, hw, he, fun t hne ht hf => ?_⟩
  have hd := dropDigits_run hw hl.run ht hf
  cases src with
  | nil => exact absurd rfl hne
  | cons c src =>
    have hc : isDigit c = true := by
      refine (hw c List.mem_cons_self).resolve_right ?_
      rintro rfl
      revert hg
      simp [goesOn, haltsDecimal]
    rw [List.cons_append, dropDigits_digit hc] at hd
    rw [List.cons_append, dropRun?, if_pos hc, hd]

theorem endsRun_nil : EndsRun [] := by simp [EndsRun]

theorem goesOn_digit (h : isDigit c = true) (s : List Char) :
    goesOn haltsDecimal (c :: s) = true := by
  have hne : c ≠ '_' ∧ c ≠ '.' ∧ c ≠ 'e' ∧ c ≠ 'E' := by
    refine ⟨?_, ?_, ?_, ?_⟩ <;> (rintro rfl; revert h; decide)
  have he : endsWord c = false := by
    cases hc : endsWord c with
    | false => rfl
    | true =>
      simp only [endsWord, Bool.or_eq_true, beq_iff_eq] at hc
      rcases hc with (((rfl | rfl) | rfl) | rfl) | rfl <;> revert h <;> decide
  simp [goesOn, haltsDecimal, hne, he]

/-- A run that is all of a word, and that is not left open. -/
theorem IsRun.dropRun_self (h : IsRun ds src rest) (hne : src ≠ [])
    (ho : endsOpen src = false) : dropRun? src = some [] := by
  have hd := h.dropRun [] hne endsRun_nil (.inl ho)
  rwa [List.append_nil] at hd

/-- An exponent with a sign. -/
theorem local_exponent_sign (hc : c = '+' ∨ c = '-') (h : IsRun ds src rest)
    (hg : goesOn haltsDecimal (src ++ rest) = true) :
    Local exponent id (c :: src) rest ∧
      (endsOpen (c :: src) = false → isExponent (c :: src) = true) := by
  refine ⟨?_, fun ho => ?_⟩
  · have hcd : isDelimiter c = false := by rcases hc with rfl | rfl <;> decide
    have hl : Local (fun t => (digitRun isDigit haltsDecimal t).map (·.2)) id src rest :=
      h.reads.map (·.2) fun _ _ => rfl
    refine hl.cons hcd fun t ht => ?_
    rw [exponent, if_pos hc, if_pos ((goesOn_congr ht).trans hg)]
  · have hne : src ≠ [] := by
      rintro rfl
      revert ho
      rcases hc with rfl | rfl <;> decide
    rw [endsOpen_cons c hne] at ho
    rcases hc with rfl | rfl <;> simp [isExponent, dropSign, h.dropRun_self hne ho]

/-- An exponent without a sign. -/
theorem local_exponent_digit (hc : ¬(c = '+' ∨ c = '-')) (hcd : isDigit c = true)
    (h : IsRun ds (c :: src) rest) :
    Local exponent id (c :: src) rest ∧
      (endsOpen (c :: src) = false → isExponent (c :: src) = true) := by
  refine ⟨h.reads.map (·.2) fun r _ => ?_, fun ho => ?_⟩
  · rw [List.cons_append, exponent, if_neg hc, if_pos hcd]
  · have hs : dropSign (c :: src) = c :: src := by
      unfold dropSign
      split <;> simp_all
    simp [isExponent, hs, h.dropRun_self (by simp) ho]

theorem local_exponent (h : exponent s = some rest) :
    ∃ src, s = src ++ rest ∧ src ≠ [] ∧ Local exponent id src rest ∧
      (endsOpen src = false → isExponent src = true) := by
  cases s with
  | nil => cases h
  | cons c s =>
    rw [exponent] at h
    split at h
    · rename_i hc
      split at h
      · rename_i hg
        obtain ⟨⟨ds, rest'⟩, hs, rfl⟩ := Option.map_eq_some_iff.1 h
        obtain ⟨src, rfl, hrun⟩ := exists_run hg hs
        exact ⟨c :: src, rfl, by simp, local_exponent_sign hc hrun hg⟩
      · cases h
    · rename_i hc
      split at h
      · rename_i hcd
        obtain ⟨⟨ds, rest'⟩, hs, rfl⟩ := Option.map_eq_some_iff.1 h
        obtain ⟨src, hsrc, hrun⟩ := exists_run (goesOn_digit hcd s) hs
        cases src with
        | nil =>
          exfalso
          rw [List.nil_append] at hsrc
          rw [(hrun.ends c (by rw [← hsrc]; rfl)).1] at hcd
          cases hcd
        | cons d src =>
          obtain ⟨rfl, rfl⟩ := List.cons.inj hsrc
          exact ⟨c :: src, rfl, by simp, local_exponent_digit hc hcd hrun⟩
      · cases h

theorem fraction_exponent (hg : goesOn haltsDecimal s = true) (hc : c = 'e' ∨ c = 'E')
    (h : digitRun isDigit haltsDecimal s = some (ds, c :: t)) : fraction s = exponent t := by
  rw [fraction, if_pos hg, h]
  rcases hc with rfl | rfl <;> rfl

theorem fraction_end (hg : goesOn haltsDecimal s = true) (ht : ∀ c ∈ t.head?, c ≠ 'e' ∧ c ≠ 'E')
    (h : digitRun isDigit haltsDecimal s = some (ds, t)) : fraction s = some t := by
  rw [fraction, if_pos hg, h]
  cases t with
  | nil => rfl
  | cons c t =>
    obtain ⟨he, hE⟩ := ht c rfl
    split <;> simp_all

theorem isExponentPart_cons (hc : c = 'e' ∨ c = 'E') (s : List Char) :
    isExponentPart (c :: s) = isExponent s := by
  rcases hc with rfl | rfl <;> rfl

theorem isFloatTail_point {tail : List Char} (h : dropRun? s = some tail) :
    isFloatTail ('.' :: s) = (tail.isEmpty || isExponentPart tail) := by
  rw [isFloatTail, h]
  cases tail <;> rfl

theorem exponentLetter_word (hc : c = 'e' ∨ c = 'E') :
    isDelimiter c = false ∧ haltsDecimal c = true ∧ isDigit c = false ∧ c ≠ '_' := by
  rcases hc with rfl | rfl <;> decide

/-- A fraction with an exponent behind its digits. -/
theorem local_fraction_exponent {run : List Char} (hc : c = 'e' ∨ c = 'E')
    (hrun : IsRun ds run (c :: (src ++ rest)))
    (hg : goesOn haltsDecimal (run ++ c :: (src ++ rest)) = true) (hne : src ≠ [])
    (hl : Local exponent id src rest) (hx : endsOpen src = false → isExponent src = true) :
    Local fraction id (run ++ c :: src) rest ∧
      (endsOpen ('.' :: (run ++ c :: src)) = false →
        isFloatTail ('.' :: (run ++ c :: src)) = true) := by
  obtain ⟨hcd, hch, hcn⟩ := exponentLetter_word hc
  refine ⟨?_, fun ho => ?_⟩
  · have hletter : Local (fun u => exponent u.tail) id (c :: src) rest :=
      hl.cons hcd fun _ _ => rfl
    refine hrun.reads.andThen hletter fun u hu hd => ?_
    obtain ⟨u, rfl⟩ := eq_cons_of_head? hu
    exact fraction_exponent ((goesOn_congr (head?_append_congr run hu)).trans hg) hc hd
  · have hrne : run ≠ [] := by
      rintro rfl
      simp [goesOn, hch] at hg
    have ht := hrun.dropRun (c :: src) hrne (by simpa [EndsRun] using hcn) (.inr ⟨c, rfl, hch⟩)
    rw [endsOpen_cons _ (by simp), endsOpen_append run (by simp), endsOpen_cons c hne] at ho
    rw [isFloatTail_point ht, isExponentPart_cons hc]
    simp [hx ho]

/-- A fraction that ends with its digits. -/
theorem local_fraction_end (hrun : IsRun ds src rest)
    (hg : goesOn haltsDecimal (src ++ rest) = true)
    (hend : ∀ c ∈ rest.head?, c ≠ 'e' ∧ c ≠ 'E') :
    Local fraction id src rest ∧
      (endsOpen ('.' :: src) = false → isFloatTail ('.' :: src) = true) := by
  refine ⟨hrun.reads.map (·.2) fun r hr => ?_, fun ho => ?_⟩
  · have hgr : goesOn haltsDecimal (src ++ r) = true :=
      (goesOn_congr (head?_append_congr src hr)).trans hg
    rw [fraction_end hgr (by rwa [hr]) (hrun.reads.reads r hr), hrun.reads.reads r hr,
      Option.map_some]
  · have hne : src ≠ [] := by
      rintro rfl
      revert ho
      decide
    rw [endsOpen_cons _ hne] at ho
    rw [isFloatTail_point (hrun.dropRun_self hne ho)]
    rfl

theorem local_fraction (h : fraction s = some rest) :
    ∃ src, s = src ++ rest ∧ Local fraction id src rest ∧
      (endsOpen ('.' :: src) = false → isFloatTail ('.' :: src) = true) := by
  have hg : goesOn haltsDecimal s = true := by
    by_cases hg : goesOn haltsDecimal s = true
    · exact hg
    · rw [fraction, if_neg hg] at h
      cases h
  cases hs : digitRun isDigit haltsDecimal s with
  | none =>
    rw [fraction, if_pos hg, hs] at h
    cases h
  | some p =>
    obtain ⟨ds, mid⟩ := p
    obtain ⟨run, rfl, hrun⟩ := exists_run hg hs
    by_cases hm : ∃ c ∈ mid.head?, c = 'e' ∨ c = 'E'
    · obtain ⟨c, hcm, hc⟩ := hm
      obtain ⟨t, rfl⟩ := eq_cons_of_head? (s := []) (Option.mem_def.1 hcm)
      rw [fraction_exponent hg hc hs] at h
      obtain ⟨src, rfl, hne, hl, hx⟩ := local_exponent h
      exact ⟨run ++ c :: src, by simp, local_fraction_exponent hc hrun hg hne hl hx⟩
    · have hend : ∀ c ∈ mid.head?, c ≠ 'e' ∧ c ≠ 'E' := by
        intro c hc
        exact ⟨fun h => hm ⟨c, hc, .inl h⟩, fun h => hm ⟨c, hc, .inr h⟩⟩
      rw [fraction_end hg hend hs] at h
      obtain rfl := Option.some.inj h
      exact ⟨run, rfl, local_fraction_end hrun hg hend⟩

theorem local_afterDigits (h : afterDigits ds s = some (.float, rest)) :
    ∃ src, s = src ++ rest ∧ (∃ c ∈ src.head?, haltsDecimal c = true) ∧ EndsRun src ∧
      Local (afterDigits ds) (fun r => (.float, r)) src rest ∧
      (endsOpen src = false → isFloatTail src = true) := by
  unfold afterDigits at h
  split at h
  · obtain ⟨_, hs, he⟩ := Option.map_eq_some_iff.1 h
    obtain rfl := (Prod.mk.inj he).2
    obtain ⟨src, rfl, hl, hf⟩ := local_fraction hs
    exact ⟨'.' :: src, rfl, ⟨'.', rfl, by decide⟩, by simp [EndsRun, isDigit],
      (hl.cons (k := fraction ∘ List.tail) (by decide) fun _ _ => rfl).map (Decimal.float, ·)
        fun _ _ => rfl, hf⟩
  · obtain ⟨_, hs, he⟩ := Option.map_eq_some_iff.1 h
    obtain rfl := (Prod.mk.inj he).2
    obtain ⟨src, rfl, hne, hl, hx⟩ := local_exponent hs
    refine ⟨'e' :: src, rfl, ⟨'e', rfl, by decide⟩, by simp [EndsRun, isDigit],
      (hl.cons (k := exponent ∘ List.tail) (by decide) fun _ _ => rfl).map (Decimal.float, ·)
        fun _ _ => rfl, fun ho => ?_⟩
    rw [endsOpen_cons _ hne] at ho
    exact hx ho
  · obtain ⟨_, hs, he⟩ := Option.map_eq_some_iff.1 h
    obtain rfl := (Prod.mk.inj he).2
    obtain ⟨src, rfl, hne, hl, hx⟩ := local_exponent hs
    refine ⟨'E' :: src, rfl, ⟨'E', rfl, by decide⟩, by simp [EndsRun, isDigit],
      (hl.cons (k := exponent ∘ List.tail) (by decide) fun _ _ => rfl).map (Decimal.float, ·)
        fun _ _ => rfl, fun ho => ?_⟩
    rw [endsOpen_cons _ hne] at ho
    exact hx ho
  · split at h <;> cases h

theorem afterDigits_integer {ds' : List Char}
    (h : afterDigits ds s = some (.integer ds', rest)) :
    ds' = ds ∧ rest = s ∧ ds ≠ [] ∧
      Local (afterDigits ds) (fun r => (.integer ds, r)) [] s := by
  unfold afterDigits at h
  split at h
  · obtain ⟨_, -, he⟩ := Option.map_eq_some_iff.1 h
    cases he
  · obtain ⟨_, -, he⟩ := Option.map_eq_some_iff.1 h
    cases he
  · obtain ⟨_, -, he⟩ := Option.map_eq_some_iff.1 h
    cases he
  · rename_i hp he hE
    split at h
    · cases h
    · rename_i hds
      obtain ⟨hd, rfl⟩ := Prod.mk.inj (Option.some.inj h)
      obtain rfl := Decimal.integer.inj hd
      refine ⟨rfl, rfl, by simpa using hds, Local.nothing fun r hr => ?_⟩
      cases s with
      | nil =>
        rw [eq_nil_of_head? hr]
        simp [afterDigits, hds]
      | cons c s =>
        obtain ⟨u, rfl⟩ := eq_cons_of_head? hr
        unfold afterDigits
        split <;> simp_all

/-- What the characters of a decimal number say about it: those of an integer are digits and
underscores, and those of a float are a float token unless the number is left open. -/
def Spells : Decimal → List Char → Prop
  | .integer _, src => ∀ c ∈ src, isDigit c = true ∨ c = '_'
  | .float, src => endsOpen src = false →
      ∃ tail, dropRun? src = some tail ∧ isFloatTail tail = true

variable {d : Decimal}

theorem ne_nil_of_mem_head? (h : c ∈ src.head?) : src ≠ [] := by
  rintro rfl
  cases h

theorem head?_append_of_mem (h : c ∈ src.head?) (r : List Char) : c ∈ (src ++ r).head? := by
  cases src with
  | nil => cases h
  | cons x src => exact h

theorem goesOn_of_halts (hc : c ∈ s.head?) (h : halts c = true) : goesOn halts s = false := by
  cases s with
  | nil => cases hc
  | cons d s =>
    obtain rfl : d = c := by simpa using hc
    simp [goesOn, h]

theorem digitRun_of_endsRun (h : EndsRun t) : digitRun isDigit halts t = some ([], t) := by
  cases t with
  | nil => rfl
  | cons c t =>
    obtain ⟨hc, hu⟩ := h c rfl
    rw [digitRun, if_neg (by simp [hc]), if_neg hu]

/-- A number whose digits have been read goes on with its fraction and exponent, if any. -/
theorem local_positive (hg : goesOn haltsDecimal s = true) (h : positive s = some (d, rest)) :
    ∃ src, s = src ++ rest ∧ src ≠ [] ∧ Local positive (fun r => (d, r)) src rest ∧
      Spells d src := by
  unfold positive at h
  split at h
  · cases h
  · rename_i ds mid hs
    obtain ⟨run, rfl, hr⟩ := exists_run hg hs
    have hk : ∀ u, digitRun isDigit haltsDecimal (run ++ u) = some (ds, u) →
        positive (run ++ u) = afterDigits ds u := by
      intro u hu
      rw [positive, hu]
    cases d with
    | integer ds' =>
      obtain ⟨rfl, rfl, hne, hla⟩ := afterDigits_integer h
      have hrun : run ≠ [] := by
        rintro rfl
        rw [List.nil_append, digitRun_of_endsRun hr.ends] at hs
        exact hne (Prod.mk.inj (Option.some.inj hs)).1.symm
      have hlp := hr.reads.andThen hla fun u _ hu => hk u hu
      rw [List.append_nil] at hlp
      exact ⟨run, rfl, hrun, hlp, hr.digits⟩
    | float =>
      obtain ⟨src, rfl, ⟨c, hc, hch⟩, hends, hla, hf⟩ := local_afterDigits h
      have hne : src ≠ [] := ne_nil_of_mem_head? hc
      have hrun : run ≠ [] := by
        rintro rfl
        rw [List.nil_append, goesOn_of_halts (head?_append_of_mem hc rest) hch] at hg
        cases hg
      refine ⟨run ++ src, (List.append_assoc ..).symm, by simp [hne],
        hr.reads.andThen hla fun u _ hu => hk u hu, fun ho => ?_⟩
      rw [endsOpen_append run hne] at ho
      have hhalts : ∃ c ∈ (src ++ rest).head?, haltsDecimal c = true :=
        ⟨c, head?_append_of_mem hc rest, hch⟩
      exact ⟨src, hr.dropRun src hrun hends (.inr hhalts), hf ho⟩

theorem local_afterSign (h : afterSign s = some (d, rest)) :
    ∃ src, s = src ++ rest ∧ src ≠ [] ∧ Local afterSign (fun r => (d, r)) src rest ∧
      Spells d src := by
  unfold afterSign at h
  split at h
  · rename_i hg
    split at h
    · rename_i s
      cases d with
      | integer ds =>
        obtain ⟨rfl, rfl, -, hl⟩ := afterDigits_integer h
        refine ⟨['0'], rfl, by simp, hl.cons (by decide) fun _ _ => rfl, ?_⟩
        intro c hc
        obtain rfl := List.mem_singleton.1 hc
        exact .inl rfl
      | float =>
        obtain ⟨src, rfl, hh, he, hl, hf⟩ := local_afterDigits h
        obtain ⟨c, hc, -⟩ := hh
        refine ⟨'0' :: src, rfl, by simp, hl.cons (by decide) fun _ _ => rfl, fun ho => ?_⟩
        rw [endsOpen_cons _ (ne_nil_of_mem_head? hc)] at ho
        exact ⟨src, by rw [dropRun?, if_pos (by decide), dropDigits_of_endsRun he], hf ho⟩
    · rename_i hz
      obtain ⟨src, rfl, hne, hl, hs⟩ := local_positive hg h
      refine ⟨src, rfl, hne, hl.map id fun r hr => ?_, hs⟩
      obtain ⟨c, src, rfl⟩ := List.exists_cons_of_ne_nil hne
      unfold afterSign
      rw [if_pos ((goesOn_congr (head?_append_congr (c :: src) hr)).trans hg), Option.map_id_apply]
      split
      · rename_i heq
        obtain ⟨rfl, -⟩ := List.cons.inj heq
        exact absurd rfl (hz (src ++ rest))
      · rfl
  · cases h

theorem local_based {base : Nat} {v : Value} (h : based base s = some (v, rest)) :
    ∃ src, s = src ++ rest ∧ Local (based base) (fun r => (v, r)) src rest ∧
      ∃ n, v = .ofWritten n := by
  unfold based at h
  split at h
  · rename_i hg
    split at h
    · cases h
    · rename_i ds mid hs
      split at h
      · cases h
      · rename_i hds
        obtain ⟨rfl, rfl⟩ := Prod.mk.inj (Option.some.inj h)
        obtain ⟨src, rfl, -, -, hl⟩ := local_digitRun (fun _ => not_delimiter_of_isDigitOf) hs
        refine ⟨src, rfl,
          hl.map (fun p => (Value.ofWritten (spelled base p.1), p.2)) fun r hr => ?_, _, rfl⟩
        unfold based
        rw [if_pos ((goesOn_congr (head?_append_congr src hr)).trans hg), hl.reads r hr]
        simp only [if_neg hds, Option.map_some]
  · cases h

@[simp] theorem token_append (w r : List Char) : token (w ++ r) r = String.ofList w := by
  simp [token]

end Number

end WakeConfig.Toml
