import WakeConfig.Proofs.Toml.Dates

/-!
# Values without quotes and brackets

A number or a truth value is one word; a date with a time is two words with a space between them,
and a local time may take the character behind it as well. `scalar_mark` follows the reader over a
marked text: a float literal has become a string, and anything else is read as before.
-/

namespace WakeConfig.Toml

open Text (isDigit)
open FloatLiteral (isDelimiter isFloatToken mark Stops)

variable {c : Char} {s r rest w : List Char} {v : Value}

/-! ## Words -/

/-- What a word says about the value that it was read as: a float has the word as its token, which
is a float token unless it is left open, and no truth value or integer is a float token. -/
def Value.IsWord (w : List Char) : Value → Prop
  | .float token =>
    token = String.ofList w ∧ (Number.endsOpen w = false → isFloatToken w = true)
  | .boolean _ => isFloatToken w = false
  | .integer _ _ => isFloatToken w = false
  | _ => False

/-- A word that is no float token says of a written integer what it has to. -/
theorem isWord_ofWritten (h : isFloatToken w = false) (written : Int) :
    (Value.ofWritten written).IsWord w := by
  obtain ⟨value, large, hv⟩ := Value.exists_ofWritten written
  rw [hv]
  exact h

namespace Number

open FloatLiteral (dropRun? dropSign isFloatTail isSpecial)

/-- The infinity or NaN behind a sign. -/
theorem exists_special (sign : List Char) {body : List Char}
    (h : special (sign ++ body) body = some (v, rest)) :
    ∃ w, (w = ['i', 'n', 'f'] ∨ w = ['n', 'a', 'n']) ∧ body = w ++ rest ∧
      v = .float (String.ofList (sign ++ w)) := by
  have ht : ∀ w r, token (sign ++ (w ++ r)) r = String.ofList (sign ++ w) := by
    intro w r
    rw [← List.append_assoc, token_append]
  unfold special at h
  split at h
  · obtain ⟨rfl, rfl⟩ := Prod.mk.inj (Option.some.inj h)
    exact ⟨['i', 'n', 'f'], .inl rfl, rfl, congrArg Value.float (ht ['i', 'n', 'f'] _)⟩
  · obtain ⟨rfl, rfl⟩ := Prod.mk.inj (Option.some.inj h)
    exact ⟨['n', 'a', 'n'], .inr rfl, rfl, congrArg Value.float (ht ['n', 'a', 'n'] _)⟩
  · cases h

/-- What a decimal number stands for once its word is known. -/
def Decimal.value (negative : Bool) (w : List Char) : Decimal → Value
  | .integer digits => .ofWritten (if negative then -spelled 10 digits else spelled 10 digits)
  | .float => .float (String.ofList w)

theorem ofDecimal_some (negative : Bool) (w r : List Char) (d : Decimal) :
    ofDecimal negative (w ++ r) (some (d, r)) = some (d.value negative w, r) := by
  cases d with
  | integer ds => rfl
  | float => simp [ofDecimal, Decimal.value]

theorem exists_of_ofDecimal {negative : Bool} {x : Read Decimal}
    (h : ofDecimal negative s x = some (v, rest)) : ∃ d, x = some (d, rest) := by
  cases x with
  | none => cases h
  | some p =>
    obtain ⟨d, r⟩ := p
    cases d <;> obtain ⟨-, rfl⟩ := Prod.mk.inj (Option.some.inj h) <;> exact ⟨_, rfl⟩

/-- The word of a decimal number, with or without a sign. -/
theorem isWord_value {body : List Char} {d : Decimal} (negative : Bool) (sign : List Char)
    (hs : sign = [] ∨ sign = ['+'] ∨ sign = ['-']) (hne : body ≠ [])
    (hb : sign = [] → dropSign body = body) (h : Spells d body) :
    (d.value negative (sign ++ body)).IsWord (sign ++ body) := by
  cases d with
  | integer ds =>
    refine isWord_ofWritten (FloatLiteral.isFloatToken_of_digits fun c hc => ?_) _
    rcases List.mem_append.1 hc with hc | hc
    · rcases hs with rfl | rfl | rfl <;> simp_all
    · exact (h c hc).imp_right .inl
  | float =>
    refine ⟨rfl, fun ho => ?_⟩
    rw [endsOpen_append sign hne] at ho
    obtain ⟨tail, ht, hf⟩ := h ho
    have hd : dropSign (sign ++ body) = body := by
      rcases hs with rfl | rfl | rfl
      · exact hb rfl
      · rfl
      · rfl
    simp [isFloatToken, hd, ht, hf]

end Number

/-- The word that a value was read from, and that it is read from this word wherever the word
ends in the same way. -/
structure Value.ReadFrom (v : Value) (w rest : List Char) : Prop extends
    Local scalar (fun r => (v, r)) w rest where
  ne_nil : w ≠ []
  isWord : v.IsWord w

theorem readFrom_special (sign : List Char) (hs : sign = [] ∨ sign = ['+'] ∨ sign = ['-'])
    (hw : w = ['i', 'n', 'f'] ∨ w = ['n', 'a', 'n']) (rest : List Char) :
    (Value.float (String.ofList (sign ++ w))).ReadFrom (sign ++ w) rest := by
  have ht : ∀ r, Number.token (sign ++ w ++ r) r = String.ofList (sign ++ w) :=
    Number.token_append _
  refine ⟨⟨?_, fun r _ => ?_⟩, ?_, rfl, fun _ => ?_⟩
  · rcases hs with rfl | rfl | rfl <;> rcases hw with rfl | rfl <;>
      exact FloatLiteral.not_delimiter_of_all (by decide)
  · rw [← ht r]
    rcases hs with rfl | rfl | rfl <;> rcases hw with rfl | rfl <;> rfl
  · rcases hw with rfl | rfl <;> simp
  · rcases hs with rfl | rfl | rfl <;> rcases hw with rfl | rfl <;> decide

/-- A number behind its sign. -/
theorem exists_readFrom_signed {sign : Char} {negative : Bool}
    (hs : ∀ t, scalar (sign :: t) = Number.signed negative (sign :: t) t)
    (hc : sign = '+' ∨ sign = '-') (h : Number.signed negative (sign :: s) s = some (v, rest)) :
    ∃ w, sign :: s = w ++ rest ∧ v.ReadFrom w rest := by
  have hsign : [sign] = [] ∨ [sign] = ['+'] ∨ [sign] = ['-'] := by simpa using hc
  have hsp : Number.special ([sign] ++ s) s = some (v, rest) →
      ∃ w, sign :: s = w ++ rest ∧ v.ReadFrom w rest := by
    intro h
    obtain ⟨w, hw, rfl, rfl⟩ := Number.exists_special [sign] h
    exact ⟨[sign] ++ w, rfl, readFrom_special [sign] hsign hw rest⟩
  unfold Number.signed at h
  split at h
  · exact hsp h
  · exact hsp h
  · rename_i hi hn
    obtain ⟨d, hd⟩ := Number.exists_of_ofDecimal h
    obtain ⟨body, rfl, hne, hl, hsp⟩ := Number.local_afterSign hd
    have hv : v = d.value negative ([sign] ++ body) := by
      rw [hd] at h
      exact (Prod.mk.inj (Option.some.inj (h.symm.trans
        (Number.ofDecimal_some negative ([sign] ++ body) rest d)))).1
    refine ⟨[sign] ++ body, rfl, ⟨?_, fun r hr => ?_⟩, by simp, ?_⟩
    · rintro x (_ | ⟨_, hx⟩)
      · rcases hc with rfl | rfl <;> decide
      · exact hl.word x hx
    · rw [hv, ← Number.ofDecimal_some, ← hl.reads r hr]
      obtain ⟨c, body, rfl⟩ := List.exists_cons_of_ne_nil hne
      show scalar (sign :: _) = _
      rw [hs]
      unfold Number.signed
      split
      · rename_i heq
        exact absurd (List.cons.inj heq).1 (fun h => hi _ (by rw [h]; rfl))
      · rename_i heq
        exact absurd (List.cons.inj heq).1 (fun h => hn _ (by rw [h]; rfl))
      · rfl
    · rw [hv]
      exact Number.isWord_value negative [sign] hsign hne (by simp) hsp

/-! ## Words that start with a digit -/

theorem not_digit_of_stops (h : Stops r) : ∀ c ∈ r.head?, isDigit c = false := by
  intro c hc
  cases hd : isDigit c with
  | false => rfl
  | true =>
    have := (h c hc).1
    rw [not_delimiter_of_isDigit hd] at this
    cases this

theorem starts_of_stops {digits : List Char} (h : Stops r) :
    DateTime.starts digits r = false := by
  unfold DateTime.starts
  split
  · exact absurd (h '-' rfl).1 (by decide)
  · exact absurd (h ':' rfl).1 (by decide)
  · rfl

theorem starts_cons (digits : List Char) (c : Char) (s t : List Char) :
    DateTime.starts digits (c :: s) = DateTime.starts digits (c :: t) := by
  by_cases hm : c = '-'
  · subst hm
    rfl
  · by_cases hc : c = ':'
    · subst hc
      rfl
    · simp [DateTime.starts, hm, hc]

/-- Whether a word starts a date or a time does not depend on what follows it. -/
theorem starts_append (w : List Char) (h : Stops r) :
    DateTime.starts ((w ++ r).takeWhile isDigit) ((w ++ r).dropWhile isDigit)
      = DateTime.starts (w.takeWhile isDigit) (w.dropWhile isDigit) := by
  rw [List.takeWhile_append, List.dropWhile_append]
  cases hd : w.dropWhile isDigit with
  | nil =>
    have hr : r.dropWhile isDigit = r := by
      cases r with
      | nil => rfl
      | cons c r =>
        refine List.dropWhile_cons_of_neg ?_
        rw [not_digit_of_stops h c rfl]
        exact Bool.false_ne_true
    rw [List.isEmpty_nil, if_pos rfl, hr, starts_of_stops h]
    rfl
  | cons c t =>
    have hw := congrArg List.length (List.takeWhile_append_dropWhile (p := isDigit) (l := w))
    rw [hd, List.length_append, List.length_cons] at hw
    rw [if_neg (by omega), List.isEmpty_cons, if_neg Bool.false_ne_true]
    exact starts_cons _ c _ _

/-- A text that starts with a digit and with no date or time is a number. -/
theorem scalar_digit (hc : isDigit c = true)
    (hs : DateTime.starts ((c :: s).takeWhile isDigit) ((c :: s).dropWhile isDigit) = false) :
    scalar (c :: s) = Number.unsigned (c :: s) := by
  have hne : c ≠ 't' ∧ c ≠ 'f' ∧ c ≠ '+' ∧ c ≠ '-' := by
    refine ⟨?_, ?_, ?_, ?_⟩ <;> (rintro rfl; revert hc; decide)
  unfold scalar
  split <;> simp_all

theorem isFloatToken_based {x : Char} (hx : x = 'x' ∨ x = 'o' ∨ x = 'b') (w : List Char) :
    isFloatToken ('0' :: x :: w) = false := by
  have hd : FloatLiteral.dropDigits (x :: w) = x :: w :=
    Number.dropDigits_of_endsRun
      (by rcases hx with rfl | rfl | rfl <;> simp [Number.EndsRun, isDigit])
  have hs : FloatLiteral.dropSign ('0' :: x :: w) = '0' :: x :: w := rfl
  have hr : FloatLiteral.dropRun? ('0' :: x :: w) = some (x :: w) := by
    rw [FloatLiteral.dropRun?, if_pos (by decide), hd]
  rw [isFloatToken, FloatLiteral.isSpecial, hs, hr]
  rcases hx with rfl | rfl | rfl <;> rfl

/-- An integer behind the zero and the letter of its base. -/
theorem isWord_local_based {base : Nat} {x : Char} (hx : x = 'x' ∨ x = 'o' ∨ x = 'b')
    (hu : ∀ t, Number.unsigned ('0' :: x :: t) = Number.based base t)
    (h : Number.based base s = some (v, rest)) :
    ∃ w, s = w ++ rest ∧ v.IsWord ('0' :: x :: w) ∧
      Local Number.unsigned (fun r => (v, r)) ('0' :: x :: w) rest := by
  obtain ⟨w, rfl, hl, n, rfl⟩ := Number.local_based h
  refine ⟨w, rfl, isWord_ofWritten (isFloatToken_based hx w) n, ?_⟩
  have hl' : Local (fun t => Number.based base t.tail) (fun r => (.ofWritten n, r)) (x :: w) rest :=
    hl.cons (by rcases hx with rfl | rfl | rfl <;> decide) fun _ _ => rfl
  refine hl'.cons (by decide) fun t ht => ?_
  obtain ⟨u, rfl⟩ := eq_cons_of_head? ht
  exact hu u

/-- A decimal number without a sign. -/
theorem isWord_local_decimal {d : Number.Decimal} {w : List Char} (hne : w ≠ [])
    (hs : FloatLiteral.dropSign w = w) (hsp : Number.Spells d w)
    (hw : ∀ c ∈ w, isDelimiter c = false)
    (hu : ∀ r, r.head? = rest.head? →
      Number.unsigned (w ++ r) = Number.ofDecimal false (w ++ r) (some (d, r)))
    (h : Number.unsigned (w ++ rest) = some (v, rest)) :
    v.IsWord w ∧ Local Number.unsigned (fun r => (v, r)) w rest := by
  obtain rfl : d.value false w = v := by
    have := h.symm.trans ((hu rest rfl).trans (Number.ofDecimal_some false w rest d))
    exact (Prod.mk.inj (Option.some.inj this)).1.symm
  refine ⟨?_, hw, fun r hr => ?_⟩
  · exact Number.isWord_value false [] (.inl rfl) hne (fun _ => hs) hsp
  · rw [hu r hr, Number.ofDecimal_some]

/-- A zero with a point behind it. -/
theorem exists_unsigned_point (h : Number.unsigned ('0' :: '.' :: s) = some (v, rest)) :
    ∃ w, '0' :: '.' :: s = w ++ rest ∧ w ≠ [] ∧ v.IsWord w ∧
      Local Number.unsigned (fun r => (v, r)) w rest := by
  obtain ⟨d, hd⟩ := Number.exists_of_ofDecimal h
  cases d with
  | integer ds => simp [Number.afterDigits] at hd
  | float =>
    obtain ⟨w, hsrc, ⟨x, hx, -⟩, he, hl, hf⟩ := Number.local_afterDigits hd
    have hne := Number.ne_nil_of_mem_head? hx
    obtain ⟨y, w, rfl⟩ := List.exists_cons_of_ne_nil hne
    obtain ⟨rfl, rfl⟩ := List.cons.inj hsrc
    have hsp : Number.Spells .float ('0' :: '.' :: w) := by
      intro ho
      rw [Number.endsOpen_cons _ hne] at ho
      refine ⟨'.' :: w, ?_, hf ho⟩
      rw [FloatLiteral.dropRun?, if_pos (by decide), Number.dropDigits_of_endsRun he]
    have hw : ∀ c ∈ '0' :: '.' :: w, isDelimiter c = false := by
      rintro x (_ | ⟨_, hx⟩)
      · decide
      · exact hl.word x hx
    refine ⟨'0' :: '.' :: w, rfl, by simp, isWord_local_decimal (by simp) rfl hsp hw ?_ h⟩
    intro r hr
    rw [← hl.reads r hr]
    rfl

/-- A zero that stands alone. -/
theorem isWord_local_zero (hr : Stops rest) :
    (Value.integer 0 false).IsWord ['0'] ∧
      Local Number.unsigned (fun r => (.integer 0 false, r)) ['0'] rest := by
  have hw : isFloatToken ['0'] = false := by decide
  refine ⟨hw, FloatLiteral.not_delimiter_of_all (by decide), fun r hr' => ?_⟩
  cases r with
  | nil => rfl
  | cons c r =>
    have hc : isDelimiter c = true := (hr c (hr' ▸ rfl)).1
    have hne : c ≠ 'x' ∧ c ≠ 'o' ∧ c ≠ 'b' ∧ c ≠ '.' := by
      refine ⟨?_, ?_, ?_, ?_⟩ <;> (rintro rfl; revert hc; decide)
    show Number.unsigned ('0' :: c :: r) = _
    unfold Number.unsigned
    split <;> simp_all

theorem unsigned_of_ne_zero (hc : c ≠ '0') (s : List Char) :
    Number.unsigned (c :: s) = Number.ofDecimal false (c :: s) (Number.positive (c :: s)) := by
  unfold Number.unsigned
  split <;> simp_all

/-- A number that starts with another digit than zero. -/
theorem exists_unsigned_positive (hc : isDigit c = true) (h0 : c ≠ '0')
    (h : Number.unsigned (c :: s) = some (v, rest)) :
    ∃ w, c :: s = w ++ rest ∧ w ≠ [] ∧ v.IsWord w ∧
      Local Number.unsigned (fun r => (v, r)) w rest := by
  have hu := h
  rw [unsigned_of_ne_zero h0] at hu
  obtain ⟨d, hd⟩ := Number.exists_of_ofDecimal hu
  obtain ⟨w, hsrc, hne, hl, hsp⟩ := Number.local_positive (Number.goesOn_digit hc s) hd
  obtain ⟨y, w, rfl⟩ := List.exists_cons_of_ne_nil hne
  obtain ⟨rfl, rfl⟩ := List.cons.inj hsrc
  have hs := FloatLiteral.dropSign_digit hc w
  refine ⟨c :: w, rfl, hne, isWord_local_decimal hne hs hsp hl.word ?_ h⟩
  intro r hr
  rw [← hl.reads r hr]
  exact unsigned_of_ne_zero h0 (w ++ r)

/-- A number that starts with a digit. -/
theorem exists_unsigned (hr : Stops rest) (hc : isDigit c = true)
    (h : Number.unsigned (c :: s) = some (v, rest)) :
    ∃ w, c :: s = w ++ rest ∧ w ≠ [] ∧ v.IsWord w ∧
      Local Number.unsigned (fun r => (v, r)) w rest := by
  by_cases h0 : c = '0'
  · have hu := h
    unfold Number.unsigned at h
    split at h
    · rename_i heq
      obtain ⟨rfl, rfl⟩ := List.cons.inj heq
      obtain ⟨w, rfl, hw⟩ := isWord_local_based (.inl rfl) (fun _ => rfl) h
      exact ⟨'0' :: 'x' :: w, rfl, by simp, hw⟩
    · rename_i heq
      obtain ⟨rfl, rfl⟩ := List.cons.inj heq
      obtain ⟨w, rfl, hw⟩ := isWord_local_based (.inr (.inl rfl)) (fun _ => rfl) h
      exact ⟨'0' :: 'o' :: w, rfl, by simp, hw⟩
    · rename_i heq
      obtain ⟨rfl, rfl⟩ := List.cons.inj heq
      obtain ⟨w, rfl, hw⟩ := isWord_local_based (.inr (.inr rfl)) (fun _ => rfl) h
      exact ⟨'0' :: 'b' :: w, rfl, by simp, hw⟩
    · rename_i heq
      obtain ⟨rfl, rfl⟩ := List.cons.inj heq
      exact exists_unsigned_point hu
    · rename_i heq
      obtain ⟨rfl, rfl⟩ := List.cons.inj heq
      obtain ⟨rfl, rfl⟩ := Prod.mk.inj (Option.some.inj h)
      exact ⟨['0'], rfl, by simp, isWord_local_zero hr⟩
    · rename_i hz
      exact absurd (by rw [h0]) (hz s)
  · exact exists_unsigned_positive hc h0 h

/-- A number without a sign. -/
theorem exists_readFrom_unsigned (hr : Stops rest) (hc : isDigit c = true)
    (hs : DateTime.starts ((c :: s).takeWhile isDigit) ((c :: s).dropWhile isDigit) = false)
    (h : Number.unsigned (c :: s) = some (v, rest)) :
    ∃ w, c :: s = w ++ rest ∧ v.ReadFrom w rest := by
  obtain ⟨w, he, hne, hw, hl⟩ := exists_unsigned hr hc h
  refine ⟨w, he, ⟨hl.word, fun r hr' => ?_⟩, hne, hw⟩
  have hrs : Stops r := fun x hx => hr x (hr' ▸ hx)
  have hst := starts_append w hrs
  rw [← starts_append w hr, ← he, hs] at hst
  rw [← hl.reads r hr']
  obtain ⟨y, w, rfl⟩ := List.exists_cons_of_ne_nil hne
  obtain ⟨rfl, -⟩ := List.cons.inj he
  exact scalar_digit hc hst

/-! ## Dates and times -/

/-- A text that starts with the digits of a date or time is read as one. -/
theorem scalar_dated {ds u : List Char} {x : Char} (hds : ∀ c ∈ ds, isDigit c = true)
    (hne : ds ≠ []) (hx : isDigit x = false) (hs : DateTime.starts ds (x :: u) = true) :
    scalar (ds ++ x :: u) = DateTime.read (ds ++ x :: u) := by
  obtain ⟨ht, hd⟩ := DateTime.span_digits (r := x :: u) hds (by simpa using hx)
  obtain ⟨c, ds, rfl⟩ := List.exists_cons_of_ne_nil hne
  have hc : isDigit c = true := hds c List.mem_cons_self
  have hne : c ≠ 't' ∧ c ≠ 'f' ∧ c ≠ '+' ∧ c ≠ '-' := by
    refine ⟨?_, ?_, ?_, ?_⟩ <;> (rintro rfl; revert hc; decide)
  unfold scalar
  split <;> simp_all

/-- The text that a date or time was read from: it is read from this text wherever the text ends in
the same way, and marking copies it if it holds no quote mark and no number sign. -/
structure IsDated (src rest : List Char) : Prop where
  ne_nil : src ≠ []
  copied : DateTime.IsBare src → mark (src ++ rest) = src ++ mark rest
  reads : ∀ r, r.head? = rest.head? → scalar (src ++ r) = some (.datetime, r)

theorem isDated_date {year : List Char} (hy : ∀ c ∈ year, isDigit c = true)
    (hl : year.length = 4) (hr : Stops rest) (h : DateTime.date year s = some rest) :
    ∃ src, year ++ '-' :: s = src ++ rest ∧ IsDated src rest := by
  obtain ⟨month, day, t, rfl, hm, hd, ht, hlm, ha⟩ := DateTime.exists_of_date h
  obtain ⟨w, rfl, hw, hreads⟩ := DateTime.exists_of_afterDay ha
  have hne : year ≠ [] := by
    rintro rfl
    cases hl
  have hdate : ∀ c ∈ year ++ '-' :: (month ++ '-' :: day), isDelimiter c = false := by
    intro c hc
    simp only [List.mem_append, List.mem_cons] at hc
    rcases hc with hc | rfl | hc | rfl | hc
    · exact not_delimiter_of_isDigit (hy c hc)
    · decide
    · exact not_delimiter_of_isDigit (hm c hc)
    · decide
    · exact not_delimiter_of_isDigit (hd c hc)
  refine ⟨year ++ '-' :: (month ++ '-' :: (day ++ w)), by simp, by simp, fun _ => ?_,
    fun r hrr => ?_⟩
  · rcases hw with hw | ⟨u, rfl, hu⟩
    · refine FloatLiteral.mark_copied ⟨?_, DateTime.isFloatToken_dated hy hne (.inl rfl) _⟩ hr
      intro c hc
      have hc' : c ∈ (year ++ '-' :: (month ++ '-' :: day)) ++ w := by simpa using hc
      exact (List.mem_append.1 hc').elim (hdate c) (hw c)
    · have hsp : Stops (' ' :: (u ++ rest)) :=
        FloatLiteral.stops_cons (by decide) (by decide) (by decide)
      have hcut := FloatLiteral.mark_copied
        ⟨hdate, DateTime.isFloatToken_dated hy hne (.inl rfl) _⟩ hsp
      rw [FloatLiteral.mark_delimiter (by decide) (by decide) (by decide) (by decide),
        FloatLiteral.mark_copied hu hr] at hcut
      simpa using hcut
  · have hread : DateTime.read (year ++ '-' :: (month ++ '-' :: (day ++ (w ++ r))))
        = some (.datetime, r) := by
      obtain ⟨htw, hdw⟩ := DateTime.span_digits (r := '-' :: (month ++ '-' :: (day ++ (w ++ r)))) hy
        (by simp [isDigit])
      have hh := head?_append_congr w hrr
      have hdate := DateTime.date_digits year hm hd fun c hc => ht c (hh ▸ hc)
      rw [if_neg hlm, hreads r hrr] at hdate
      unfold DateTime.read
      rw [htw, hdw]
      exact congrArg (Option.map _) hdate
    rw [show year ++ '-' :: (month ++ '-' :: (day ++ w)) ++ r
      = year ++ '-' :: (month ++ '-' :: (day ++ (w ++ r))) by simp]
    rw [scalar_dated hy hne (by decide) (by simp [DateTime.starts, hl]), hread]

theorem isDated_localTime (hr : Stops rest) (h : DateTime.localTime s = some rest) :
    ∃ src, s = src ++ rest ∧ IsDated src rest := by
  obtain ⟨a, b, w, rfl, ha, hb, htime⟩ := DateTime.exists_of_localTime h hr
  refine ⟨_, rfl, by simp, htime.copied, fun r hrr => ?_⟩
  have hds : ∀ c ∈ [a, b], isDigit c = true := by simp [ha, hb]
  obtain ⟨htw, hdw⟩ := DateTime.span_digits (r := ':' :: (w ++ r)) hds (by simp [isDigit])
  have hs : a :: b :: ':' :: w ++ r = [a, b] ++ ':' :: (w ++ r) := rfl
  rw [hs, scalar_dated hds (by simp) (by decide) rfl]
  unfold DateTime.read
  rw [htw, hdw, ← hs]
  exact congrArg (Option.map _) (htime.reads r hrr)

/-- A value without quotes and brackets is one word, or a date or time. -/
theorem exists_readFrom (hr : Stops rest) (h : scalar s = some (v, rest)) :
    ∃ src, s = src ++ rest ∧ (v.ReadFrom src rest ∨ v = .datetime ∧ IsDated src rest) := by
  unfold scalar at h
  split at h
  · obtain ⟨rfl, rfl⟩ := Prod.mk.inj (Option.some.inj h)
    have hw : isFloatToken ['t', 'r', 'u', 'e'] = false := by decide
    exact ⟨['t', 'r', 'u', 'e'], rfl,
      .inl ⟨⟨FloatLiteral.not_delimiter_of_all (by decide), fun _ _ => rfl⟩, by simp, hw⟩⟩
  · obtain ⟨rfl, rfl⟩ := Prod.mk.inj (Option.some.inj h)
    have hw : isFloatToken ['f', 'a', 'l', 's', 'e'] = false := by decide
    exact ⟨['f', 'a', 'l', 's', 'e'], rfl,
      .inl ⟨⟨FloatLiteral.not_delimiter_of_all (by decide), fun _ _ => rfl⟩, by simp, hw⟩⟩
  · obtain ⟨w, he, hw⟩ := exists_readFrom_signed (fun _ => rfl) (.inl rfl) h
    exact ⟨w, he, .inl hw⟩
  · obtain ⟨w, he, hw⟩ := exists_readFrom_signed (fun _ => rfl) (.inr rfl) h
    exact ⟨w, he, .inl hw⟩
  · rename_i c s _ _ _ _
    split at h
    · rename_i hc
      split at h
      · rename_i hs
        have hspan := List.takeWhile_append_dropWhile (p := isDigit) (l := c :: s)
        unfold DateTime.read at h
        dsimp only at h
        split at h
        · rename_i u hd
          obtain ⟨rest', hdate, he⟩ := Option.map_eq_some_iff.1 h
          obtain ⟨rfl, rfl⟩ := Prod.mk.inj he
          rw [hd] at hs hspan
          obtain ⟨src, hsrc, hdated⟩ := isDated_date (DateTime.takeWhile_isDigit _)
            (by simpa [DateTime.starts] using hs) hr hdate
          exact ⟨src, by rw [← hspan, hsrc], .inr ⟨rfl, hdated⟩⟩
        · obtain ⟨rest', hlocal, he⟩ := Option.map_eq_some_iff.1 h
          obtain ⟨rfl, rfl⟩ := Prod.mk.inj he
          obtain ⟨src, hsrc, hdated⟩ := isDated_localTime hr hlocal
          exact ⟨src, hsrc, .inr ⟨rfl, hdated⟩⟩
      · rename_i hs
        obtain ⟨w, he, hw⟩ := exists_readFrom_unsigned hr hc (by simpa using hs) h
        exact ⟨w, he, .inl hw⟩
    · obtain ⟨w, hw, he, rfl⟩ := Number.exists_special [] h
      exact ⟨w, he, .inl (readFrom_special [] (.inl rfl) hw rest)⟩
  · cases h

end WakeConfig.Toml
