import WakeConfig.Proofs.Toml.FloatTokens

/-!
# Dates and times

A date or a time is one word, or two with a space between them, and no word of it is a float
token. Only a local time can take a character that does not belong to it: the one behind it, when
it has no fraction. `exists_dated` is what a date or time leaves behind in a marked text.
-/

namespace WakeConfig.Toml.DateTime

open Text (isDigit)
open FloatLiteral (isDelimiter isFloatToken mark Stops IsCopied isCopied_nil mark_copied)

variable {c x : Char} {s r rest w ds : List Char}

/-! ## Parts of a time -/

theorem local_clock {k : Clock} (h : clock s = some (k, rest)) :
    ∃ a b w, s = a :: b :: ':' :: w ++ rest ∧ isDigit a = true ∧ isDigit b = true ∧
      Local clock (fun r => (k, r)) (a :: b :: ':' :: w) rest := by
  unfold clock at h
  split at h
  · rename_i a b c d e f rest'
    split at h
    · rename_i hd
      obtain ⟨rfl, rfl⟩ := Prod.mk.inj (Option.some.inj h)
      have hd' := hd
      simp only [List.all_cons, List.all_nil, Bool.and_true, Bool.and_eq_true] at hd
      obtain ⟨ha, hb, hc, hd, he, hf⟩ := hd
      refine ⟨a, b, [c, d, ':', e, f], rfl, ha, hb, ?_, fun r _ => ?_⟩
      · have hp : isDelimiter ':' = false := by decide
        simp [not_delimiter_of_isDigit, ha, hb, hc, hd, he, hf, hp]
      · show clock (a :: b :: ':' :: c :: d :: ':' :: e :: f :: r) = _
        rw [clock, if_pos hd']
    · cases h
  · cases h

theorem takeWhile_isDigit (s : List Char) : ∀ c ∈ s.takeWhile isDigit, isDigit c = true := by
  intro c hc
  exact List.all_eq_true.1 (List.all_takeWhile ..) c hc

theorem not_digit_head?_dropWhile (s : List Char) :
    ∀ c ∈ (s.dropWhile isDigit).head?, isDigit c = false := by
  intro c hc
  have h := List.head?_dropWhile_not isDigit s
  rw [Option.mem_def.1 hc] at h
  exact h

/-- A run of digits in front of something else is found again. -/
theorem span_digits (hw : ∀ c ∈ w, isDigit c = true) (hr : ∀ c ∈ r.head?, isDigit c = false) :
    (w ++ r).takeWhile isDigit = w ∧ (w ++ r).dropWhile isDigit = r := by
  rw [List.takeWhile_append_of_pos hw, List.dropWhile_append_of_pos hw]
  cases r with
  | nil => simp
  | cons c r =>
    have hc : ¬isDigit c = true := by rw [hr c rfl]; exact Bool.false_ne_true
    rw [List.takeWhile_cons_of_neg hc, List.dropWhile_cons_of_neg hc, List.append_nil]
    exact ⟨rfl, rfl⟩

theorem local_fraction (h : fraction s = some (ds, rest)) :
    ∃ src, s = src ++ rest ∧ Local fraction (fun r => (ds, r)) src rest := by
  unfold fraction at h
  split at h
  · rename_i s
    dsimp only at h
    split at h
    · cases h
    · rename_i he
      obtain ⟨rfl, rfl⟩ := Prod.mk.inj (Option.some.inj h)
      refine ⟨'.' :: s.takeWhile isDigit, ?_, ?_, fun r hr => ?_⟩
      · rw [List.cons_append, List.takeWhile_append_dropWhile]
      · rintro x (_ | ⟨_, hx⟩)
        · decide
        · exact not_delimiter_of_isDigit (takeWhile_isDigit s x hx)
      · obtain ⟨ht, hd⟩ := span_digits (takeWhile_isDigit s)
          fun x hx => not_digit_head?_dropWhile s x (hr ▸ hx)
        rw [List.cons_append, fraction, ht, hd]
        exact if_neg he
  · rename_i hp
    obtain ⟨rfl, rfl⟩ := Prod.mk.inj (Option.some.inj h)
    refine ⟨[], rfl, Local.nothing fun r hr => ?_⟩
    cases s with
    | nil =>
      rw [eq_nil_of_head? hr]
      rfl
    | cons c s =>
      obtain ⟨u, rfl⟩ := eq_cons_of_head? hr
      have hc : c ≠ '.' := by
        rintro rfl
        exact hp s rfl
      unfold fraction
      split <;> simp_all

theorem atWordEnd_congr (h : r.head? = s.head?) : Number.atWordEnd r = Number.atWordEnd s := by
  cases s with
  | nil => rw [eq_nil_of_head? h]
  | cons c s =>
    obtain ⟨u, rfl⟩ := eq_cons_of_head? h
    rfl

theorem local_offset (h : offset s = some rest) :
    ∃ src, s = src ++ rest ∧ Local offset id src rest := by
  by_cases hs : Number.atWordEnd s = true
  · unfold offset at h
    rw [if_pos hs] at h
    obtain rfl := Option.some.inj h
    refine ⟨[], rfl, Local.nothing fun r hr => ?_⟩
    unfold offset
    rw [if_pos ((atWordEnd_congr hr).trans hs)]
    rfl
  · unfold offset at h
    rw [if_neg hs] at h
    split at h
    · obtain rfl := Option.some.inj h
      exact ⟨['Z'], rfl, FloatLiteral.not_delimiter_of_all (by decide), fun r _ => rfl⟩
    · rename_i sign a b c d rest' _
      split at h
      · rename_i hv
        obtain rfl := Option.some.inj h
        have hv' := hv
        refine ⟨[sign, a, b, ':', c, d], rfl, ?_, fun r _ => ?_⟩
        · simp only [Bool.and_eq_true, Bool.or_eq_true, beq_iff_eq, List.all_cons, List.all_nil,
            Bool.and_true] at hv
          obtain ⟨⟨⟨hsg, ha, hb, hc, hd⟩, -⟩, -⟩ := hv
          have hp : isDelimiter ':' = false := by decide
          have hsd : isDelimiter sign = false := by rcases hsg with rfl | rfl <;> decide
          simp [not_delimiter_of_isDigit, ha, hb, hc, hd, hp, hsd]
        · show offset (sign :: a :: b :: ':' :: c :: d :: r) = _
          have hz : sign ≠ 'Z' := by
            rintro rfl
            simp at hv'
          have hw : ¬Number.atWordEnd (sign :: a :: b :: ':' :: c :: d :: r) = true := hs
          unfold offset
          rw [if_neg hw]
          split
          · rename_i heq
            exact absurd (List.cons.inj heq).1 hz
          · rename_i heq
            cases heq
            exact if_pos hv'
          · rename_i hn
            exact absurd rfl (hn sign a b c d r)
      · cases h
    · cases h

theorem local_timeOfDay (h : timeOfDay s = some rest) :
    ∃ a b w, s = a :: b :: ':' :: w ++ rest ∧ isDigit a = true ∧ isDigit b = true ∧
      Local timeOfDay id (a :: b :: ':' :: w) rest := by
  unfold timeOfDay at h
  split at h
  · cases h
  · rename_i k mid hk
    split at h
    · cases h
    · rename_i ds mid' hf
      split at h
      · rename_i hv
        obtain ⟨a, b, w, rfl, ha, hb, hl⟩ := local_clock hk
        obtain ⟨w', rfl, hl'⟩ := local_fraction hf
        obtain ⟨w'', rfl, hl''⟩ := local_offset h
        have htail : Local (fun s => (fraction s).bind fun p =>
            if k.isValid p.1 then offset p.2 else none) id (w' ++ w'') rest :=
          hl'.andThen hl'' fun u _ hu => by rw [hu, Option.bind_some, if_pos hv]
        refine ⟨a, b, w ++ (w' ++ w''), by simp, ha, hb, ?_⟩
        show Local timeOfDay id ((a :: b :: ':' :: w) ++ (w' ++ w'')) rest
        refine Local.andThen (by simpa using hl) htail fun u _ hu => ?_
        rw [timeOfDay, hu]
        dsimp only
        rcases fraction u with _ | ⟨ds, u⟩ <;> rfl
      · cases h

/-! ## Words of dates and times -/

/-- Digits with a hyphen or a colon behind them are no float. -/
theorem isFloatToken_dated (hds : ∀ c ∈ ds, isDigit c = true) (hne : ds ≠ [])
    (hx : x = '-' ∨ x = ':') (w : List Char) : isFloatToken (ds ++ x :: w) = false := by
  obtain ⟨c, ds, rfl⟩ := List.exists_cons_of_ne_nil hne
  have hc : isDigit c = true := hds c List.mem_cons_self
  have hd : FloatLiteral.dropDigits (ds ++ x :: w) = x :: w := by
    rw [Number.dropDigits_digits fun y hy => hds y (List.mem_cons_of_mem c hy)]
    refine Number.dropDigits_of_endsRun ?_
    rcases hx with rfl | rfl <;> simp [Number.EndsRun, isDigit]
  have hsign := FloatLiteral.dropSign_digit hc (ds ++ x :: w)
  have hsp : c ≠ 'i' ∧ c ≠ 'n' := by
    refine ⟨?_, ?_⟩ <;> (rintro rfl; revert hc; decide)
  rw [List.cons_append, isFloatToken, FloatLiteral.isSpecial, hsign, FloatLiteral.dropRun?,
    if_pos hc, hd]
  rcases hx with rfl | rfl <;>
    simp [hsp, FloatLiteral.isFloatTail, FloatLiteral.isExponentPart]

theorem isFloatToken_time {a b : Char} (ha : isDigit a = true) (hb : isDigit b = true)
    (w : List Char) : isFloatToken (a :: b :: ':' :: w) = false := by
  have hds : ∀ c ∈ [a, b], isDigit c = true := by simp [ha, hb]
  exact isFloatToken_dated hds (by simp) (.inr rfl) w

/-! ## Dates -/

/-- What stands between a date and a time joins the word of the time, or is a space before it. -/
theorem joined_copied {u : List Char} (hc : c = 'T' ∨ c = ' ') (hu : IsCopied u) :
    (∀ x ∈ c :: u, isDelimiter x = false) ∨ ∃ w, c :: u = ' ' :: w ∧ IsCopied w := by
  rcases hc with rfl | rfl
  · refine .inl ?_
    rintro x (_ | ⟨_, hx⟩)
    · decide
    · exact hu.1 x hx
  · exact .inr ⟨u, rfl, hu⟩

/-- What is read behind the digits of a date. -/
def afterDay (year month day : List Char) : List Char → Option (List Char)
  | [] => if isDate year month day then some [] else none
  | c :: tail =>
    if c = 'T' ∨ c = ' ' then
      if day.length < 2 then none
      else if Number.atWordEnd tail then if isDate year month day then some tail else none
      else if isPlainDate month day then timeOfDay tail else none
    else if Number.endsWord c then if isDate year month day then some (c :: tail) else none
    else none

variable {year month day : List Char}

theorem date_digits (year : List Char) (hm : ∀ c ∈ month, isDigit c = true)
    (hd : ∀ c ∈ day, isDigit c = true) (hs : ∀ c ∈ s.head?, isDigit c = false) :
    date year (month ++ '-' :: (day ++ s))
      = if month.length < 2 then none else afterDay year month day s := by
  obtain ⟨htm, hdm⟩ := span_digits (r := '-' :: (day ++ s)) hm (by simp [isDigit])
  obtain ⟨htd, hdd⟩ := span_digits hd hs
  unfold date
  rw [htm, hdm]
  simp only [htd, hdd]
  cases s <;> rfl

theorem exists_of_date (h : date year s = some rest) :
    ∃ month day t, s = month ++ '-' :: (day ++ t) ∧ (∀ c ∈ month, isDigit c = true) ∧
      (∀ c ∈ day, isDigit c = true) ∧ (∀ c ∈ t.head?, isDigit c = false) ∧
      ¬month.length < 2 ∧ afterDay year month day t = some rest := by
  have hs := List.takeWhile_append_dropWhile (p := isDigit) (l := s)
  cases hm : s.dropWhile isDigit with
  | nil =>
    unfold date at h
    rw [hm] at h
    cases h
  | cons c u =>
    by_cases hc : c = '-'
    · subst hc
      have hu := List.takeWhile_append_dropWhile (p := isDigit) (l := u)
      rw [hm, ← hu] at hs
      have hd := date_digits year (takeWhile_isDigit s) (takeWhile_isDigit u)
        (not_digit_head?_dropWhile u)
      rw [hs, h] at hd
      by_cases hl : (s.takeWhile isDigit).length < 2
      · rw [if_pos hl] at hd
        cases hd
      · rw [if_neg hl] at hd
        exact ⟨_, _, _, hs.symm, takeWhile_isDigit s, takeWhile_isDigit u,
          not_digit_head?_dropWhile u, hl, hd.symm⟩
    · unfold date at h
      rw [hm] at h
      simp [hc] at h

/-- Behind the digits of a date nothing is taken, a `T` or a space, or one of these and a time. -/
theorem exists_of_afterDay (h : afterDay year month day s = some rest) :
    ∃ w, s = w ++ rest ∧
      ((∀ c ∈ w, isDelimiter c = false) ∨ ∃ u, w = ' ' :: u ∧ IsCopied u) ∧
      ∀ r, r.head? = rest.head? → afterDay year month day (w ++ r) = some r := by
  cases s with
  | nil =>
    rw [afterDay] at h
    split at h
    · rename_i hv
      obtain rfl := Option.some.inj h
      refine ⟨[], rfl, .inl (by simp), fun r hr => ?_⟩
      rw [eq_nil_of_head? hr, List.nil_append, afterDay, if_pos hv]
    · cases h
  | cons c tail =>
    rw [afterDay] at h
    split at h
    · rename_i hc
      split at h
      · cases h
      · rename_i hd
        split at h
        · rename_i hw
          split at h
          · rename_i hv
            obtain rfl := Option.some.inj h
            refine ⟨[c], rfl, ?_, fun r hr => ?_⟩
            · exact joined_copied hc isCopied_nil
            · show afterDay year month day (c :: r) = _
              rw [afterDay, if_pos hc, if_neg hd, if_pos ((atWordEnd_congr hr).trans hw), if_pos hv]
          · cases h
        · rename_i hw
          split at h
          · rename_i hv
            obtain ⟨a, b, w, rfl, ha, hb, hl⟩ := local_timeOfDay h
            refine ⟨c :: a :: b :: ':' :: w, rfl, ?_, fun r hr => ?_⟩
            · exact joined_copied hc ⟨hl.word, isFloatToken_time ha hb w⟩
            · show afterDay year month day (c :: (a :: b :: ':' :: w ++ r)) = _
              have hw' : ¬Number.atWordEnd (a :: b :: ':' :: w ++ r) = true := hw
              rw [afterDay, if_pos hc, if_neg hd, if_neg hw', if_pos hv, hl.reads r hr, id_eq]
          · cases h
    · rename_i hc
      split at h
      · rename_i hw
        split at h
        · rename_i hv
          obtain rfl := Option.some.inj h
          refine ⟨[], rfl, .inl (by simp), fun r hr => ?_⟩
          obtain ⟨u, rfl⟩ := eq_cons_of_head? hr
          rw [List.nil_append, afterDay, if_neg hc, if_pos hw, if_pos hv]
        · cases h
      · cases h

/-- No character of the text opens a string or a comment. -/
def IsBare (src : List Char) : Prop := ∀ c ∈ src, c ≠ '"' ∧ c ≠ '\'' ∧ c ≠ '#'

instance (src : List Char) : Decidable (IsBare src) := List.decidableBAll _ _

theorem localTime_point {k : Clock} (hk : clock s = some (k, '.' :: r)) :
    localTime s = match fraction ('.' :: r) with
      | none => none
      | some (ds, rest) =>
        if k.isValid ds && Number.atWordEnd rest then some rest else none := by
  unfold localTime
  rw [hk]
  rfl

theorem localTime_plain {k : Clock} (hk : clock s = some (k, r)) (hp : ∀ u, r ≠ '.' :: u)
    (hv : k.isValid [] = true) : localTime s = some (r.drop 1) := by
  unfold localTime
  rw [hk]
  split
  · cases ‹some _ = none›
  · rename_i heq
    obtain ⟨-, rfl⟩ := Prod.mk.inj (Option.some.inj heq)
    exact absurd rfl (hp _)
  · rename_i heq
    obtain ⟨rfl, rfl⟩ := Prod.mk.inj (Option.some.inj heq)
    exact if_pos hv

/-- The text of a local time: it is read from this text wherever the text ends in the same way, and
marking copies it if no character of it opens a string or a comment. -/
structure IsLocalTime (src rest : List Char) : Prop where
  copied : IsBare src → mark (src ++ rest) = src ++ mark rest
  reads : ∀ r, r.head? = rest.head? → localTime (src ++ r) = some r

variable {k : Clock} {src frac : List Char}

theorem isLocalTime_word (h : Local localTime id src rest) (hf : isFloatToken src = false)
    (hr : Stops rest) : IsLocalTime src rest where
  copied _ := mark_copied ⟨h.word, hf⟩ hr
  reads := h.reads

/-- A local time with a fraction is a word. -/
theorem local_localTime_fraction (hk : Local clock (fun r => (k, r)) src (frac ++ rest))
    (hf : Local fraction (fun r => (ds, r)) frac rest) (hp : (frac ++ rest).head? = some '.')
    (hv : k.isValid ds = true) (he : Number.atWordEnd rest = true) :
    Local localTime id (src ++ frac) rest := by
  have hvalid : Local (fun s => (fraction s).bind fun p =>
      if k.isValid p.1 && Number.atWordEnd p.2 then some p.2 else none) id frac rest := by
    refine ⟨hf.word, fun r hr => ?_⟩
    rw [hf.reads r hr, Option.bind_some, hv, atWordEnd_congr hr, he]
    rfl
  refine hk.andThen hvalid fun u hu hclock => ?_
  rw [hp] at hu
  obtain ⟨u, rfl⟩ := eq_cons_of_head? (s := []) hu
  rw [localTime_point hclock]
  rcases fraction ('.' :: u) with _ | ⟨ds, u⟩ <;> rfl

/-- Without a fraction it takes the character behind it. -/
theorem isLocalTime_plain (hf : ∀ w, isFloatToken (src ++ w) = false)
    (hk : Local clock (fun r => (k, r)) src s) (hp : ∀ u, s ≠ '.' :: u)
    (hv : k.isValid [] = true) (hr : Stops (s.drop 1)) :
    IsLocalTime (src ++ s.take 1) (s.drop 1) := by
  cases s with
  | nil =>
    have hword : Local localTime id (src ++ []) [] := by
      rw [List.append_nil]
      refine ⟨hk.word, fun r hrr => ?_⟩
      obtain rfl := eq_nil_of_head? hrr
      exact localTime_plain (hk.reads [] rfl) (by simp) hv
    exact isLocalTime_word hword (hf []) hr
  | cons x u =>
    have hx : ∀ r t, x :: r ≠ '.' :: t := by
      intro r t ht
      exact hp u (by rw [(List.cons.inj ht).1])
    refine ⟨fun hbare => ?_, fun r _ => ?_⟩
    · show mark (src ++ [x] ++ u) = src ++ [x] ++ mark u
      by_cases hd : isDelimiter x = true
      · obtain ⟨hxd, hxs, hxn⟩ := hbare x (by simp)
        have hsrc := hf []
        rw [List.append_nil] at hsrc
        have hm := mark_copied ⟨hk.word, hsrc⟩ (FloatLiteral.stops_cons (s := u) hd hxd hxs)
        rw [FloatLiteral.mark_delimiter hd hxn hxd hxs] at hm
        simpa using hm
      · refine mark_copied ⟨fun y hy => ?_, hf [x]⟩ hr
        rcases List.mem_append.1 hy with hy | hy
        · exact hk.word y hy
        · rw [List.mem_singleton.1 hy]
          simpa using hd
    · have hs : src ++ [x] ++ r = src ++ x :: r := by simp
      show localTime (src ++ [x] ++ r) = some r
      rw [hs, localTime_plain (hk.reads (x :: r) rfl) (hx r) hv]
      rfl

theorem exists_of_localTime (h : localTime s = some rest) (hr : Stops rest) :
    ∃ a b w, s = a :: b :: ':' :: w ++ rest ∧ isDigit a = true ∧ isDigit b = true ∧
      IsLocalTime (a :: b :: ':' :: w) rest := by
  unfold localTime at h
  split at h
  · cases h
  · rename_i k afterPoint hk
    split at h
    · cases h
    · rename_i ds rest' hfrac
      split at h
      · rename_i hv
        obtain rfl := Option.some.inj h
        rw [Bool.and_eq_true] at hv
        obtain ⟨a, b, w, rfl, ha, hb, hl⟩ := local_clock hk
        obtain ⟨frac, he, hl'⟩ := local_fraction hfrac
        rw [he] at hl
        have hword := local_localTime_fraction hl hl' (by rw [← he]; rfl) hv.1 hv.2
        exact ⟨a, b, w ++ frac, by simp [he], ha, hb,
          isLocalTime_word hword (isFloatToken_time ha hb _) hr⟩
      · cases h
  · rename_i k s' hp hk
    split at h
    · rename_i hv
      obtain rfl := Option.some.inj h
      obtain ⟨a, b, w, rfl, ha, hb, hl⟩ := local_clock hk
      refine ⟨a, b, w ++ s'.take 1, ?_, ha, hb,
        isLocalTime_plain (fun u => isFloatToken_time ha hb _) hl hp hv hr⟩
      simp only [List.cons_append, List.append_assoc, List.take_append_drop]
    · cases h

end WakeConfig.Toml.DateTime
