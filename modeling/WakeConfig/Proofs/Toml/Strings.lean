import WakeConfig.Proofs.Toml.FloatTokens

/-!
# Strings

A string that is read ends where `FloatLiteral.cutString` cuts it, so marking copies it. The one
doubt is a quote behind the closing ones, which the cut takes as well; no string with such a quote
is part of a document, and the statements here leave it out.
-/

namespace WakeConfig.Toml

open FloatLiteral (cutQuoted cutQuotes cutTripled cutString grow)

namespace Quoted

variable {c quote : Char} {s r rest text : List Char} {place : Place}

/-! ## Escapes -/

/-- A character inside an escape adds something to the text, or nothing, and leads to another
place, whatever the reader is. -/
theorem afterHex_eq (c : Char) (lacking value : Nat) :
    (∀ k, afterHex k c lacking value = none) ∨
      ∃ place, ∃ f : List Char → List Char, place ≠ .escape ∧ (c ≠ '"' ∧ c ≠ '\\' ∧ c ≠ '\n') ∧
        ∀ k, afterHex k c lacking value = (k place).map fun p => (f p.1, p.2) := by
  have hne : ∀ d, hexValue? c = some d → c ≠ '"' ∧ c ≠ '\\' ∧ c ≠ '\n' := by
    intro d hd
    have hq : hexValue? '"' = none := by decide
    have hb : hexValue? '\\' = none := by decide
    have hl : hexValue? '\n' = none := by decide
    refine ⟨?_, ?_, ?_⟩ <;> (rintro rfl; simp_all)
  unfold afterHex
  cases hd : hexValue? c with
  | none => exact .inl fun _ => rfl
  | some d =>
    by_cases hl : lacking = 0
    · cases hx : scalar? (value * 16 + d) with
      | none => exact .inl fun k => by simp [hl, hx]
      | some x => exact .inr ⟨.text, (x :: ·), by simp, hne d hd, fun k => by simp [hl, hx, push]⟩
    · exact .inr ⟨.code (lacking - 1) (value * 16 + d), id, by simp, hne d hd,
        fun k => by simp [hl]⟩

theorem afterBackslash_eq (c : Char) :
    (∀ k, afterBackslash k c = none) ∨
      ∃ place, ∃ f : List Char → List Char, place ≠ .escape ∧
        ∀ k, afterBackslash k c = (k place).map fun p => (f p.1, p.2) := by
  unfold afterBackslash
  by_cases hu : c = 'u'
  · exact .inr ⟨.code 3 0, id, by simp, fun k => by simp [hu]⟩
  · by_cases hU : c = 'U'
    · exact .inr ⟨.code 7 0, id, by simp, fun k => by simp [hU]⟩
    · cases hx : simpleEscape? c with
      | none => exact .inl fun k => by simp [hu, hU]
      | some x => exact .inr ⟨.text, (x :: ·), by simp, fun k => by simp [hu, hU, push]⟩

/-! ## Single-line forms -/

/-- One character of a basic string on one line: it is refused, it closes the string, or it leads
to another place, and the cut goes along. -/
def BasicStep (place : Place) (c : Char) : Prop :=
  (∀ s, basicAt place (c :: s) = none) ∨
    (∀ s, basicAt place (c :: s) = some ([], s) ∧
      cutQuoted '"' true (place == .escape) (c :: s) = ([c], s)) ∨
    ∃ place', ∃ f : List Char → List Char, ∀ s,
      basicAt place (c :: s) = (basicAt place' s).map (fun p => (f p.1, p.2)) ∧
      cutQuoted '"' true (place == .escape) (c :: s)
        = grow c (cutQuoted '"' true (place' == .escape) s)

theorem basicStep_text (hne : place ≠ .escape)
    (h : ∀ s, basicAt place (c :: s) = basicAt .text (c :: s)) : BasicStep place c := by
  have hp : (place == Place.escape) = false := by simpa using hne
  by_cases hq : c = '"'
  · subst hq
    exact .inr (.inl fun s => ⟨by rw [h]; rfl, by rw [hp]; rfl⟩)
  · by_cases hb : c = '\\'
    · subst hb
      refine .inr (.inr ⟨.escape, id, fun s => ⟨?_, by rw [hp]; rfl⟩⟩)
      rw [h]
      exact (Option.map_id' ..).symm
    · by_cases hc : isControl c = true
      · refine .inl fun s => ?_
        rw [h]
        simp [basicAt, hq, hb, hc]
      · have hl : c ≠ '\n' := by
          rintro rfl
          exact hc (by decide)
        refine .inr (.inr ⟨.text, (c :: ·), fun s => ⟨?_, ?_⟩⟩)
        · rw [h]
          simp [basicAt, hq, hb, hc, push]
        · rw [hp, show (Place.text == Place.escape) = false from rfl]
          simp [cutQuoted, hq, hb, hl]

theorem basicStep (place : Place) (c : Char) : BasicStep place c := by
  cases place with
  | text => exact basicStep_text (by simp) fun _ => rfl
  | gap => exact basicStep_text (by simp) fun _ => rfl
  | trim => exact basicStep_text (by simp) fun _ => rfl
  | escape =>
    obtain h | ⟨place', f, hp, h⟩ := afterBackslash_eq c
    · exact .inl fun s => h _
    · have hp' : (place' == Place.escape) = false := by simpa using hp
      refine .inr (.inr ⟨place', f, fun s => ⟨h _, ?_⟩⟩)
      rw [hp']
      rfl
  | code lacking value =>
    obtain h | ⟨place', f, hp, ⟨hq, hb, hl⟩, h⟩ := afterHex_eq c lacking value
    · exact .inl fun s => h _
    · have hp' : (place' == Place.escape) = false := by simpa using hp
      refine .inr (.inr ⟨place', f, fun s => ⟨h _, ?_⟩⟩)
      have hcode : (Place.code lacking value == Place.escape) = false := rfl
      rw [hp', hcode]
      simp [cutQuoted, hq, hb, hl]

theorem basicAt_cut (h : basicAt place s = some (text, rest)) :
    ∃ src, s = src ++ rest ∧ cutQuoted '"' true (place == .escape) s = (src, rest) ∧
      ∀ r, basicAt place (src ++ r) = some (text, r) := by
  induction s generalizing place text with
  | nil => cases place <;> cases h
  | cons c s ih =>
    obtain hn | hc | ⟨place', f, hs⟩ := basicStep place c
    · rw [hn] at h
      cases h
    · obtain ⟨hr, hcut⟩ := hc s
      rw [hr] at h
      obtain ⟨rfl, rfl⟩ := Prod.mk.inj (Option.some.inj h)
      exact ⟨[c], rfl, hcut, fun r => (hc r).1⟩
    · rw [(hs s).1] at h
      obtain ⟨⟨text', rest'⟩, hs', he⟩ := Option.map_eq_some_iff.1 h
      obtain ⟨rfl, rfl⟩ := Prod.mk.inj he
      obtain ⟨src, rfl, hcut, hr⟩ := ih hs'
      refine ⟨c :: src, rfl, ?_, fun r => ?_⟩
      · rw [(hs (src ++ rest')).2, hcut, grow]
      · rw [List.cons_append, (hs (src ++ r)).1, hr r]
        rfl

theorem literal_cutQuoted (h : literal s = some (text, rest)) :
    ∃ src, s = src ++ rest ∧ cutQuoted '\'' false false s = (src, rest) ∧
      ∀ r, literal (src ++ r) = some (text, r) := by
  induction s generalizing text with
  | nil => cases h
  | cons c s ih =>
    rw [literal] at h
    split at h
    · rename_i hq
      obtain ⟨rfl, rfl⟩ := Prod.mk.inj (Option.some.inj h)
      subst hq
      exact ⟨['\''], rfl, rfl, fun _ => rfl⟩
    · rename_i hq
      split at h
      · cases h
      · rename_i hc
        obtain ⟨⟨text', rest'⟩, hs, he⟩ := Option.map_eq_some_iff.1 h
        obtain ⟨rfl, rfl⟩ := Prod.mk.inj he
        obtain ⟨src, rfl, hcut, hr⟩ := ih hs
        have hl : c ≠ '\n' := by
          rintro rfl
          exact hc (by decide)
        refine ⟨c :: src, rfl, ?_, fun r => ?_⟩
        · simp [cutQuoted, hl, hq, hcut, grow]
        · rw [List.cons_append, literal, if_neg hq, if_neg hc, hr r]
          rfl

/-! ## Multi-line forms -/

theorem cutTripled_of_ne {escapes : Bool} (hq : c ≠ quote) (hb : ¬(escapes = true ∧ c = '\\'))
    (s : List Char) :
    cutTripled quote escapes false (c :: s) = grow c (cutTripled quote escapes false s) := by
  rw [cutTripled, if_neg Bool.false_ne_true, if_neg hb, if_neg]
  simp [List.isPrefixOf, Ne.symm hq]

/-- One character of a multi-line basic string: it is refused, it is a quote, or it leads to
another place, and the cut goes along. -/
def MultiStep (place : Place) (c : Char) : Prop :=
  (∀ s, multiBasicAt place (c :: s) = none) ∨
    (c = '"' ∧ (place == .escape) = false ∧ ∀ s, multiBasicAt place (c :: s)
      = if ['"', '"'].isPrefixOf s then some ([], s.drop 2) else push c (multiBasicAt .text s)) ∨
    ∃ place', ∃ f : List Char → List Char, ∀ s,
      multiBasicAt place (c :: s) = (multiBasicAt place' s).map (fun p => (f p.1, p.2)) ∧
      cutTripled '"' true (place == .escape) (c :: s)
        = grow c (cutTripled '"' true (place' == .escape) s)

theorem multiStep_text (hne : place ≠ .escape)
    (h : ∀ s, multiBasicAt place (c :: s) = multiBasicAt .text (c :: s)) : MultiStep place c := by
  have hp : (place == Place.escape) = false := by simpa using hne
  by_cases hq : c = '"'
  · subst hq
    refine .inr (.inl ⟨rfl, hp, fun s => ?_⟩)
    have hm : isMultiControl '"' = false := by decide
    rw [h]
    simp [multiBasicAt, hm]
  · by_cases hb : c = '\\'
    · subst hb
      refine .inr (.inr ⟨.escape, id, fun s => ⟨?_, by rw [hp]; rfl⟩⟩)
      rw [h]
      simp [multiBasicAt]
    · by_cases hc : isMultiControl c = true
      · refine .inl fun s => ?_
        rw [h]
        simp [multiBasicAt, hq, hb, hc]
      · refine .inr (.inr ⟨.text, (c :: ·), fun s => ⟨?_, ?_⟩⟩)
        · rw [h]
          simp [multiBasicAt, hq, hb, hc, push]
        · rw [hp, show (Place.text == Place.escape) = false from rfl]
          exact cutTripled_of_ne hq (by simp [hb]) s

theorem quote_ne_of_blank (h : isSpace c = true ∨ isNewline c = true) : c ≠ '"' ∧ c ≠ '\\' := by
  refine ⟨?_, ?_⟩ <;> (rintro rfl; revert h; decide)

theorem multiStep_blank (place' : Place) (hb : isSpace c = true ∨ isNewline c = true)
    (hp : place' ≠ .escape)
    (h : ∀ s, multiBasicAt place (c :: s) = multiBasicAt place' s) : MultiStep place c := by
  obtain ⟨hq, hbs⟩ := quote_ne_of_blank hb
  have hp' : (place' == Place.escape) = false := by simpa using hp
  refine .inr (.inr ⟨place', id, fun s => ⟨?_, ?_⟩⟩)
  · rw [h]
    exact (Option.map_id' ..).symm
  · rw [hp']
    cases he : place == Place.escape with
    | true => rfl
    | false => exact cutTripled_of_ne hq (by simp [hbs]) s

theorem multiStep (place : Place) (c : Char) : MultiStep place c := by
  cases place with
  | text => exact multiStep_text (by simp) fun _ => rfl
  | trim =>
    by_cases hb : isSpace c = true ∨ isNewline c = true
    · exact multiStep_blank .trim hb (by simp) fun s => by simp [multiBasicAt, hb]
    · exact multiStep_text (by simp) fun s => by simp [multiBasicAt, hb]
  | gap =>
    by_cases hs : isSpace c = true
    · exact multiStep_blank .gap (.inl hs) (by simp) fun s => by simp [multiBasicAt, hs]
    · by_cases hn : isNewline c = true
      · exact multiStep_blank .trim (.inr hn) (by simp) fun s => by
          simp [multiBasicAt, hs, hn]
      · exact .inl fun s => by simp [multiBasicAt, hs, hn]
  | escape =>
    by_cases hn : isNewline c = true
    · exact multiStep_blank .trim (.inr hn) (by simp) fun s => by
        simp [multiBasicAt, hn]
    · by_cases hs : isSpace c = true
      · exact multiStep_blank .gap (.inl hs) (by simp) fun s => by
          simp [multiBasicAt, hs, hn]
      · obtain h | ⟨place', f, hp, h⟩ := afterBackslash_eq c
        · exact .inl fun s => by simp [multiBasicAt, hs, hn, h]
        · have hp' : (place' == Place.escape) = false := by simpa using hp
          refine .inr (.inr ⟨place', f, fun s => ⟨by simp [multiBasicAt, hs, hn, h], ?_⟩⟩)
          rw [hp']
          rfl
  | code lacking value =>
    obtain h | ⟨place', f, hp, ⟨hq, hb, -⟩, h⟩ := afterHex_eq c lacking value
    · exact .inl fun s => h _
    · have hp' : (place' == Place.escape) = false := by simpa using hp
      refine .inr (.inr ⟨place', f, fun s => ⟨h _, ?_⟩⟩)
      rw [hp', show (Place.code lacking value == Place.escape) = false from rfl]
      exact cutTripled_of_ne hq (by simp [hb]) s

/-- Three quotes and what follows them, which is no quote. -/
theorem cutTripled_close (escapes : Bool) (hb : quote ≠ '\\')
    (hr : ∀ c ∈ rest.head?, c ≠ quote) :
    cutTripled quote escapes false (quote :: quote :: quote :: rest)
      = ([quote, quote, quote], rest) := by
  have hcut : cutQuotes quote 2 rest = ([], rest) := by
    cases rest with
    | nil => rfl
    | cons c rest => rw [cutQuotes, if_neg (hr c rfl)]
  rw [cutTripled, if_neg Bool.false_ne_true, if_neg (by simp [hb]),
    if_pos (by simp [List.isPrefixOf])]
  simp [cutQuotes, grow, hcut]

theorem cutTripled_quote {escapes : Bool} (hb : quote ≠ '\\')
    (h : ¬[quote, quote].isPrefixOf s = true) :
    cutTripled quote escapes false (quote :: s)
      = grow quote (cutTripled quote escapes false s) := by
  rw [cutTripled, if_neg Bool.false_ne_true, if_neg (by simp [hb]), if_neg]
  simpa [List.isPrefixOf] using h

/-- What follows three characters does not matter to the first two. -/
theorem isPrefixOf_append {p src : List Char} (h : p.length ≤ src.length) (r : List Char) :
    p.isPrefixOf (src ++ r) = p.isPrefixOf src := by
  induction p generalizing src with
  | nil => cases src <;> rfl
  | cons x p ih =>
    cases src with
    | nil => cases h
    | cons y src =>
      rw [List.cons_append, List.isPrefixOf, List.isPrefixOf, ih (by simpa using h)]

theorem eq_of_isPrefixOf_pair (h : [quote, quote].isPrefixOf s = true) :
    s = quote :: quote :: s.drop 2 := by
  obtain ⟨t, rfl⟩ := List.isPrefixOf_iff_prefix.1 h
  rfl

theorem multiBasicAt_cut (h : multiBasicAt place s = some (text, rest))
    (hr : ∀ c ∈ rest.head?, c ≠ '"') :
    ∃ src, s = src ++ rest ∧ 3 ≤ src.length ∧
      cutTripled '"' true (place == .escape) s = (src, rest) ∧
      ∀ r, multiBasicAt place (src ++ r) = some (text, r) := by
  induction s generalizing place text with
  | nil => cases place <;> cases h
  | cons c s ih =>
    obtain hn | ⟨rfl, hp, hs⟩ | ⟨place', f, hs⟩ := multiStep place c
    · rw [hn] at h
      cases h
    · rw [hs] at h
      split at h
      · rename_i hpre
        obtain ⟨rfl, rfl⟩ := Prod.mk.inj (Option.some.inj h)
        refine ⟨['"', '"', '"'], ?_, by simp, ?_, fun r => ?_⟩
        · rw [eq_of_isPrefixOf_pair hpre]
          rfl
        · rw [hp, eq_of_isPrefixOf_pair hpre]
          exact cutTripled_close true (by decide) hr
        · show multiBasicAt place ('"' :: '"' :: '"' :: r) = _
          rw [hs, if_pos (by simp [List.isPrefixOf])]
          rfl
      · rename_i hpre
        obtain ⟨⟨text', rest'⟩, hs', he⟩ := Option.map_eq_some_iff.1 h
        obtain ⟨rfl, rfl⟩ := Prod.mk.inj he
        obtain ⟨src, rfl, hlen, hcut, hread⟩ := ih hs'
        refine ⟨'"' :: src, rfl, by simp; omega, ?_, fun r => ?_⟩
        · rw [hp, cutTripled_quote (by decide) hpre, show cutTripled '"' true false (src ++ rest')
            = (src, rest') from hcut, grow]
        · rw [isPrefixOf_append (by simp; omega)] at hpre
          rw [List.cons_append, hs, if_neg (by rwa [isPrefixOf_append (by simp; omega)]), hread r]
          rfl
    · rw [(hs s).1] at h
      obtain ⟨⟨text', rest'⟩, hs', he⟩ := Option.map_eq_some_iff.1 h
      obtain ⟨rfl, rfl⟩ := Prod.mk.inj he
      obtain ⟨src, rfl, hlen, hcut, hread⟩ := ih hs'
      refine ⟨c :: src, rfl, by simp; omega, ?_, fun r => ?_⟩
      · rw [(hs (src ++ rest')).2, hcut, grow]
      · rw [List.cons_append, (hs (src ++ r)).1, hread r]
        rfl

theorem multiLiteral_cut (h : multiLiteral s = some (text, rest))
    (hr : ∀ c ∈ rest.head?, c ≠ '\'') :
    ∃ src, s = src ++ rest ∧ 3 ≤ src.length ∧ cutTripled '\'' false false s = (src, rest) ∧
      ∀ r, multiLiteral (src ++ r) = some (text, r) := by
  induction s generalizing text with
  | nil => cases h
  | cons c s ih =>
    rw [multiLiteral] at h
    split at h
    · rename_i hpre
      obtain ⟨rfl, rfl⟩ := Prod.mk.inj (Option.some.inj h)
      obtain ⟨rfl, hpre⟩ := hpre
      refine ⟨['\'', '\'', '\''], ?_, by simp, ?_, fun r => ?_⟩
      · rw [eq_of_isPrefixOf_pair hpre]
        rfl
      · rw [eq_of_isPrefixOf_pair hpre]
        exact cutTripled_close false (by decide) hr
      · show multiLiteral ('\'' :: '\'' :: '\'' :: r) = _
        rw [multiLiteral, if_pos (by simp [List.isPrefixOf])]
        rfl
    · rename_i hpre
      split at h
      · cases h
      · rename_i hc
        obtain ⟨⟨text', rest'⟩, hs', he⟩ := Option.map_eq_some_iff.1 h
        obtain ⟨rfl, rfl⟩ := Prod.mk.inj he
        obtain ⟨src, rfl, hlen, hcut, hread⟩ := ih hs'
        refine ⟨c :: src, rfl, by simp; omega, ?_, fun r => ?_⟩
        · have hgrow : cutTripled '\'' false false (c :: (src ++ rest'))
              = grow c (cutTripled '\'' false false (src ++ rest')) := by
            by_cases hq : c = '\''
            · subst hq
              exact cutTripled_quote (by decide) fun h => hpre ⟨rfl, h⟩
            · exact cutTripled_of_ne hq (by simp) _
          rw [hgrow, hcut, grow]
        · rw [isPrefixOf_append (by simp; omega)] at hpre
          rw [List.cons_append, multiLiteral, if_neg, if_neg hc, hread r]
          · rfl
          · rwa [isPrefixOf_append (by simp; omega)]

/-- A reader whose strings are cut off by three quotes. -/
def EndsTripled (quote : Char) (escapes : Bool) (read : List Char → Read (List Char)) : Prop :=
  ∀ {s text rest}, read s = some (text, rest) → (∀ c ∈ rest.head?, c ≠ quote) →
    ∃ src, s = src ++ rest ∧ 3 ≤ src.length ∧ cutTripled quote escapes false s = (src, rest) ∧
      ∀ r, read (src ++ r) = some (text, r)

theorem dropOpening_return (s : List Char) : dropOpening ('\r' :: s) = dropOpening s := by
  simp [dropOpening]

theorem dropOpening_of_ne (hr : c ≠ '\r') (hn : c ≠ '\n') (s : List Char) :
    dropOpening (c :: s) = c :: s := by
  simp [dropOpening, hr, hn]

/-- A line break behind the opening quotes changes nothing in how the string is cut. -/
theorem EndsTripled.dropOpening {escapes : Bool} {read : List Char → Read (List Char)}
    (hq : quote ≠ '\r' ∧ quote ≠ '\n') (h : EndsTripled quote escapes read) :
    EndsTripled quote escapes fun s => read (dropOpening s) := by
  intro s text rest hs hr
  have hgrow : ∀ {c t src}, c = '\r' ∨ c = '\n' → cutTripled quote escapes false t = (src, rest) →
      cutTripled quote escapes false (c :: t) = (c :: src, rest) := by
    intro c t src hc ht
    rw [cutTripled_of_ne, ht, grow]
    · rcases hc with rfl | rfl
      · exact hq.1.symm
      · exact hq.2.symm
    · rcases hc with rfl | rfl <;> simp
  induction s with
  | nil =>
    obtain ⟨src, he, hl, -⟩ := h (s := []) hs hr
    rw [List.eq_nil_of_append_eq_nil he.symm |>.1] at hl
    cases hl
  | cons c s ih =>
    by_cases hcr : c = '\r'
    · subst hcr
      simp only [dropOpening_return] at hs
      obtain ⟨src, rfl, hl, hcut, hread⟩ := ih hs
      refine ⟨'\r' :: src, rfl, by simp; omega, hgrow (.inl rfl) hcut, fun r => ?_⟩
      simp only [List.cons_append, dropOpening_return, hread r]
    · by_cases hcn : c = '\n'
      · subst hcn
        obtain ⟨src, rfl, hl, hcut, hread⟩ := h (s := s) hs hr
        exact ⟨'\n' :: src, rfl, by simp; omega, hgrow (.inr rfl) hcut, fun r => hread r⟩
      · simp only [dropOpening_of_ne hcr hcn] at hs
        obtain ⟨src, he, hl, hcut, hread⟩ := h hs hr
        refine ⟨src, he, hl, hcut, fun r => ?_⟩
        cases src with
        | nil => simp at hl
        | cons d src =>
          obtain ⟨rfl, -⟩ := List.cons.inj he
          rw [← hread r]
          exact congrArg read (dropOpening_of_ne hcr hcn _)

/-! ## Strings as they are cut -/

/-- A string as it is written, from after its opening quote: it is read from any text that goes on
with another character than the quote, and the cut is where it ends. -/
structure Spelling (quote : Char) (read : List Char → Read (List Char)) (text src : List Char) :
    Prop where
  cut : ∀ r, (∀ c ∈ r.head?, c ≠ quote) → cutString quote (src ++ r) = (src, r)
  reads : ∀ r, (∀ c ∈ r.head?, c ≠ quote) → read (src ++ r) = some (text, r)

theorem cutString_single (hp : ¬[quote, quote].isPrefixOf s = true) :
    cutString quote s = cutQuoted quote (quote == '"') false s := if_neg hp

theorem cutString_tripled {src : List Char}
    (h : cutTripled quote (quote == '"') false s = (src, rest)) :
    cutString quote (quote :: quote :: s) = (quote :: quote :: src, rest) := by
  unfold cutString
  rw [if_pos (by simp [List.isPrefixOf]), List.drop_succ_cons, List.drop_succ_cons, List.drop_zero,
    h]

/-- A reader whose strings are cut off by one quote. -/
def EndsSingle (quote : Char) (escapes : Bool) (read : List Char → Read (List Char)) : Prop :=
  ∀ {s text rest}, read s = some (text, rest) →
    ∃ src, s = src ++ rest ∧ cutQuoted quote escapes false s = (src, rest) ∧
      ∀ r, read (src ++ r) = some (text, r)

/-- A string on one line: what is behind it starts with no quote, so it opens with no three. -/
theorem not_pair {src : List Char} {read : List Char → Read (List Char)}
    (hq : ∀ s, read (quote :: s) = some ([], s)) (hread : ∀ r, read (src ++ r) = some (text, r))
    (hr : ∀ c ∈ r.head?, c ≠ quote) : ¬[quote, quote].isPrefixOf (src ++ r) = true := by
  intro hp
  have he := eq_of_isPrefixOf_pair hp
  have hs := hread r
  rw [he, hq] at hs
  have hr' := (Prod.mk.inj (Option.some.inj hs)).2
  exact hr quote (by rw [← hr']; rfl) rfl

theorem EndsSingle.spelling {read : List Char → Read (List Char)}
    (h : EndsSingle quote (quote == '"') read) (hq : ∀ s, read (quote :: s) = some ([], s))
    (hs : read s = some (text, rest)) : ∃ src, s = src ++ rest ∧ Spelling quote read text src := by
  obtain ⟨src, rfl, -, hread⟩ := h hs
  refine ⟨src, rfl, fun r hr => ?_, fun r _ => hread r⟩
  obtain ⟨src', he, hcut, -⟩ := h (hread r)
  obtain rfl := List.append_cancel_right he
  rw [cutString_single (not_pair hq hread hr), hcut]

theorem EndsTripled.spelling {read : List Char → Read (List Char)}
    (h : EndsTripled quote (quote == '"') read) (hs : read s = some (text, rest))
    (hr : ∀ c ∈ rest.head?, c ≠ quote) :
    ∃ src, s = src ++ rest ∧ (∀ r, read (src ++ r) = some (text, r)) ∧
      ∀ r, (∀ c ∈ r.head?, c ≠ quote) →
        cutString quote (quote :: quote :: (src ++ r)) = (quote :: quote :: src, r) := by
  obtain ⟨src, rfl, -, -, hread⟩ := h hs hr
  refine ⟨src, rfl, hread, fun r hr' => ?_⟩
  obtain ⟨src', he, -, hcut, -⟩ := h (hread r) hr'
  obtain rfl := List.append_cancel_right he
  exact cutString_tripled hcut

/-- The reader of a value: three quotes open a multi-line string, and one opens the other kind. -/
theorem exists_spelling {one many read : List Char → Read (List Char)}
    (hone : EndsSingle quote (quote == '"') one) (hq : ∀ s, one (quote :: s) = some ([], s))
    (hmany : EndsTripled quote (quote == '"') many)
    (hread : ∀ s, read s = if [quote, quote].isPrefixOf s then many (s.drop 2) else one s)
    (h : read s = some (text, rest)) (hr : ∀ c ∈ rest.head?, c ≠ quote) :
    ∃ src, s = src ++ rest ∧ Spelling quote read text src := by
  rw [hread] at h
  by_cases hp : [quote, quote].isPrefixOf s = true
  · rw [if_pos hp] at h
    obtain ⟨src, he, hreads, hcut⟩ := hmany.spelling h hr
    refine ⟨quote :: quote :: src, ?_, hcut, fun r _ => ?_⟩
    · rw [eq_of_isPrefixOf_pair hp, he]
      rfl
    · rw [hread, if_pos (by simp [List.isPrefixOf])]
      exact hreads r
  · rw [if_neg hp] at h
    obtain ⟨src, rfl, hcut, hreads⟩ := hone h
    obtain ⟨src', he, hsp⟩ := hone.spelling hq h
    obtain rfl := List.append_cancel_right he
    refine ⟨src, rfl, hsp.cut, fun r hr' => ?_⟩
    rw [hread, if_neg (not_pair hq hreads hr'), hreads r]

theorem endsSingle_basic : EndsSingle '"' true basic := fun h => basicAt_cut h

theorem endsSingle_literal : EndsSingle '\'' false literal := fun h => literal_cutQuoted h

theorem basic_spelling (h : basic s = some (text, rest)) :
    ∃ src, s = src ++ rest ∧ Spelling '"' basic text src :=
  endsSingle_basic.spelling (fun _ => rfl) h

theorem literal_spelling (h : literal s = some (text, rest)) :
    ∃ src, s = src ++ rest ∧ Spelling '\'' literal text src :=
  endsSingle_literal.spelling (fun _ => rfl) h

theorem double_spelling (h : double s = some (text, rest)) (hr : ∀ c ∈ rest.head?, c ≠ '"') :
    ∃ src, s = src ++ rest ∧ Spelling '"' double text src := by
  have hm : EndsTripled '"' true multiBasic := fun h hr => multiBasicAt_cut h hr
  refine exists_spelling endsSingle_basic (fun _ => rfl) (hm.dropOpening (by decide)) ?_ h hr
  intro s
  by_cases hp : ['"', '"'].isPrefixOf s = true
  · rw [if_pos hp, eq_of_isPrefixOf_pair hp]
    rfl
  · rw [if_neg hp]
    unfold double
    split
    · simp [List.isPrefixOf] at hp
    · rfl

theorem single_spelling (h : single s = some (text, rest)) (hr : ∀ c ∈ rest.head?, c ≠ '\'') :
    ∃ src, s = src ++ rest ∧ Spelling '\'' single text src := by
  have hm : EndsTripled '\'' false multiLiteral := fun h hr => multiLiteral_cut h hr
  refine exists_spelling endsSingle_literal (fun _ => rfl) (hm.dropOpening (by decide)) ?_ h hr
  intro s
  by_cases hp : ['\'', '\''].isPrefixOf s = true
  · rw [if_pos hp, eq_of_isPrefixOf_pair hp]
    rfl
  · rw [if_neg hp]
    unfold single
    split
    · simp [List.isPrefixOf] at hp
    · rfl

/-! ## Marked floats -/

open FloatLiteral (marker isDelimiter)

theorem basicAt_word {w : List Char}
    (hw : ∀ c ∈ w, c ≠ '"' ∧ c ≠ '\\' ∧ isControl c = false) (r : List Char) :
    basicAt .text (w ++ '"' :: r) = some (w, r) := by
  induction w with
  | nil => rfl
  | cons c w ih =>
    obtain ⟨hq, hb, hc⟩ := hw c List.mem_cons_self
    rw [List.cons_append, basicAt, if_neg hq, if_neg hb, hc, if_neg Bool.false_ne_true,
      ih fun x hx => hw x (List.mem_cons_of_mem c hx)]
    · rfl
    · simp
    · simp

theorem isFloatChar_text (h : FloatLiteral.isFloatChar c = true) :
    c ≠ '"' ∧ c ≠ '\\' ∧ isControl c = false := by
  simp only [FloatLiteral.isFloatChar, Bool.or_eq_true, List.contains_iff_mem] at h
  rcases h with h | h
  · refine ⟨?_, ?_, ?_⟩
    · rintro rfl
      revert h
      decide
    · rintro rfl
      revert h
      decide
    · simp only [Text.isDigit, Bool.and_eq_true, decide_eq_true_eq, Char.le_def,
        UInt32.le_iff_toNat_le] at h
      have h₁ : ('0' : Char).val.toNat = 48 := rfl
      have h₂ : ('9' : Char).val.toNat = 57 := rfl
      have hn : c.toNat = c.val.toNat := rfl
      have ha : ¬c.toNat = 127 := by omega
      have hb : ¬c.toNat < 32 := by omega
      simp [isControl, ha, hb]
  · have hall : ∀ x ∈ ['_', '.', 'e', 'E', '+', '-', 'i', 'n', 'f', 'a'],
        decide (x ≠ '"' ∧ x ≠ '\\' ∧ isControl x = false) = true :=
      List.all_eq_true.1 (by decide)
    exact of_decide_eq_true (hall c h)

/-- What is written for a float behind the escape of its marker is plain text. -/
theorem marked_text {w : List Char} (hw : FloatLiteral.isFloatToken w = true) :
    ∀ c ∈ "E000toml-float:".toList ++ w, c ≠ '"' ∧ c ≠ '\\' ∧ isControl c = false := by
  have hm : ∀ x ∈ "E000toml-float:".toList,
      decide (x ≠ '"' ∧ x ≠ '\\' ∧ isControl x = false) = true :=
    List.all_eq_true.1 (by decide)
  intro c hc
  rcases List.mem_append.1 hc with hc | hc
  · exact of_decide_eq_true (hm c hc)
  · exact isFloatChar_text (FloatLiteral.isFloatChar_of_isFloatToken hw hc)

/-- A marked float is read as a string: the marker and the token. -/
theorem basic_marked {w : List Char} (hw : FloatLiteral.isFloatToken w = true) (r : List Char) :
    basic ("\\uE000toml-float:".toList ++ (w ++ '"' :: r)) = some (marker.toList ++ w, r) := by
  have hsub : "toml-float:".toList ⊆ "E000toml-float:".toList := by decide
  have hword : ∀ c ∈ "toml-float:".toList ++ w, c ≠ '"' ∧ c ≠ '\\' ∧ isControl c = false :=
    fun c hc => marked_text hw c (List.mem_append.2 ((List.mem_append.1 hc).imp_left (hsub ·)))
  have hesc : ∀ t, basicAt .text ("\\uE000".toList ++ t)
      = push (Char.ofNat 0xE000) (basicAt .text t) := fun _ => rfl
  have h := basicAt_word hword r
  rw [List.append_assoc] at h
  show basicAt .text ("\\uE000".toList ++ ("toml-float:".toList ++ (w ++ '"' :: r))) = _
  rw [hesc, h]
  rfl

theorem double_marked {w : List Char} (hw : FloatLiteral.isFloatToken w = true) (r : List Char) :
    double ("\\uE000toml-float:".toList ++ (w ++ '"' :: r)) = some (marker.toList ++ w, r) :=
  basic_marked hw r

end Quoted

end WakeConfig.Toml
