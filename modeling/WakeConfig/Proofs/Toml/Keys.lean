import WakeConfig.Proofs.Toml.Strings

/-!
# Dotted keys

`KeyText` is the grammar of a dotted key, and `dottedKey` reads by it. Marking turns a key into a
key again, but one of other names: a name that is a float token gets the marker, and so do two
names that make one with the point between them. `KeyText.mark` states it, and `Respelled` says
which names can change.
-/

namespace WakeConfig.Toml

open FloatLiteral (isDelimiter isFloatToken mark Stops cutToken dropRun? dropSign marker)

/-! ## The grammar -/

/-- One key as it is written: a string on one line, or a name without quotes. -/
inductive KeyPart : List Char → String → Prop where
  | basic {text src} (h : Quoted.Spelling '"' Quoted.basic text src) :
    KeyPart ('"' :: src) (String.ofList text)
  | literal {text src} (h : Quoted.Spelling '\'' Quoted.literal text src) :
    KeyPart ('\'' :: src) (String.ofList text)
  | bare {w} (hne : w ≠ []) (hw : ∀ c ∈ w, isBareKeyChar c = true) : KeyPart w (String.ofList w)

/-- Only spaces and tabs. -/
def AllSpace (s : List Char) : Prop := ∀ c ∈ s, Quoted.isSpace c = true

/-- A dotted key as it is written, with its names. -/
inductive KeyText : List Char → List String → Prop where
  | last {s src t name} (hs : AllSpace s) (h : KeyPart src name) (ht : AllSpace t) :
    KeyText (s ++ (src ++ t)) [name]
  | cons {s src t more name names} (hs : AllSpace s) (h : KeyPart src name) (ht : AllSpace t)
    (hm : KeyText more names) : KeyText (s ++ (src ++ (t ++ '.' :: more))) (name :: names)

variable {c : Char} {s t r src tail rest w more : List Char} {name : String} {names : List String}
  {n m : Nat}

/-- Whether a text is at its end or at a character that ends a key. -/
def EndsKey (s : List Char) : Prop := ∀ c ∈ s.head?, c = '=' ∨ c = ']'

/-- No quote and no character of a name without quotes follows. -/
def EndsPart (s : List Char) : Prop :=
  ∀ c ∈ s.head?, isBareKeyChar c = false ∧ c ≠ '"' ∧ c ≠ '\''

theorem EndsKey.stops (h : EndsKey s) : Stops s := by
  intro c hc
  rcases h c hc with rfl | rfl <;> decide

theorem EndsKey.endsPart (h : EndsKey s) : EndsPart s := by
  intro c hc
  rcases h c hc with rfl | rfl <;> decide

theorem isSpace_endsPart (h : Quoted.isSpace c = true) :
    isBareKeyChar c = false ∧ c ≠ '"' ∧ c ≠ '\'' := by
  simp only [Quoted.isSpace, Bool.or_eq_true, beq_iff_eq] at h
  rcases h with rfl | rfl <;> decide

theorem AllSpace.endsPart_append (hs : AllSpace s) (hr : EndsPart r) : EndsPart (s ++ r) := by
  cases s with
  | nil => exact hr
  | cons c s =>
    intro x hx
    obtain rfl : c = x := by simpa using hx
    exact isSpace_endsPart (hs c List.mem_cons_self)

theorem AllSpace.stops_append (hs : AllSpace s) (hr : Stops r) : Stops (s ++ r) := by
  cases s with
  | nil => exact hr
  | cons c s =>
    obtain ⟨h, -, hd, hq⟩ := FloatLiteral.isSpace_delimiter (hs c List.mem_cons_self)
    exact FloatLiteral.stops_cons h hd hq

theorem endsPart_point (s : List Char) : EndsPart ('.' :: s) := by
  intro c hc
  obtain rfl : '.' = c := by simpa using hc
  decide

theorem dropSpaces_append (hs : AllSpace s) (hr : ∀ c ∈ r.head?, Quoted.isSpace c = false) :
    dropSpaces (s ++ r) = r := by
  unfold dropSpaces
  rw [List.dropWhile_append_of_pos hs]
  cases r with
  | nil => rfl
  | cons c r => exact List.dropWhile_cons_of_neg (by simp [hr c rfl])

/-- A text is its spaces and what is left without them. -/
theorem exists_spaces (s : List Char) : ∃ t, AllSpace t ∧ s = t ++ dropSpaces s := by
  refine ⟨s.takeWhile Quoted.isSpace, ?_, List.takeWhile_append_dropWhile.symm⟩
  intro c hc
  exact List.all_eq_true.1 List.all_takeWhile c hc

/-! ## Reading -/

theorem KeyPart.ne_nil (h : KeyPart src name) : src ≠ [] := by
  cases h with
  | basic => simp
  | literal => simp
  | bare hne => exact hne

theorem KeyPart.not_space (h : KeyPart src name) (r : List Char) :
    ∀ c ∈ (src ++ r).head?, Quoted.isSpace c = false := by
  intro c hc
  cases h with
  | basic =>
    obtain rfl : '"' = c := by simpa using hc
    decide
  | literal =>
    obtain rfl : '\'' = c := by simpa using hc
    decide
  | bare hne hw =>
    cases src with
    | nil => exact absurd rfl hne
    | cons d src =>
      obtain rfl : d = c := by simpa using hc
      have hd := hw d List.mem_cons_self
      cases hsp : Quoted.isSpace d with
      | false => rfl
      | true =>
        rw [(isSpace_endsPart hsp).1] at hd
        cases hd

theorem span_bare (hw : ∀ c ∈ w, isBareKeyChar c = true) (hr : EndsPart r) :
    (w ++ r).takeWhile isBareKeyChar = w ∧ (w ++ r).dropWhile isBareKeyChar = r := by
  rw [List.takeWhile_append_of_pos hw, List.dropWhile_append_of_pos hw]
  cases r with
  | nil => simp
  | cons c r =>
    have hc : ¬isBareKeyChar c = true := by rw [(hr c rfl).1]; exact Bool.false_ne_true
    rw [List.takeWhile_cons_of_neg hc, List.dropWhile_cons_of_neg hc, List.append_nil]
    exact ⟨rfl, rfl⟩

/-- A name without quotes is what `key` takes where no quote stands. -/
theorem key_bare (hq : ∀ c ∈ s.head?, c ≠ '"' ∧ c ≠ '\'') :
    key s = if (s.takeWhile isBareKeyChar).isEmpty then none
      else some (String.ofList (s.takeWhile isBareKeyChar), s.dropWhile isBareKeyChar) := by
  unfold key
  split
  · exact absurd rfl (hq '"' rfl).1
  · exact absurd rfl (hq '\'' rfl).2
  · rfl

theorem KeyPart.key (h : KeyPart src name) (hr : EndsPart r) :
    key (src ++ r) = some (name, r) := by
  cases h with
  | basic h =>
    exact congrArg (Option.map fun p => (String.ofList p.1, p.2))
      (h.reads r fun c hc => (hr c hc).2.1)
  | literal h =>
    exact congrArg (Option.map fun p => (String.ofList p.1, p.2))
      (h.reads r fun c hc => (hr c hc).2.2)
  | bare hne hw =>
    obtain ⟨ht, hd⟩ := span_bare hw hr
    rw [key_bare, ht, hd, if_neg (by simpa using hne)]
    intro c hc
    cases src with
    | nil => exact absurd rfl hne
    | cons d src =>
      obtain rfl : d = c := by simpa using hc
      have hd := hw d List.mem_cons_self
      refine ⟨?_, ?_⟩ <;> (rintro rfl; revert hd; decide)

theorem exists_keyPart (h : key s = some (name, rest)) :
    ∃ src, s = src ++ rest ∧ KeyPart src name := by
  by_cases hq : ∀ c ∈ s.head?, c ≠ '"' ∧ c ≠ '\''
  · rw [key_bare hq] at h
    split at h
    · cases h
    · rename_i hne
      obtain ⟨rfl, rfl⟩ := Prod.mk.inj (Option.some.inj h)
      refine ⟨_, List.takeWhile_append_dropWhile.symm, .bare (by simpa using hne) ?_⟩
      intro c hc
      exact List.all_eq_true.1 List.all_takeWhile c hc
  · unfold key at h
    split at h
    · obtain ⟨⟨text, rest'⟩, hs, he⟩ := Option.map_eq_some_iff.1 h
      obtain ⟨rfl, rfl⟩ := Prod.mk.inj he
      obtain ⟨src, rfl, hsp⟩ := Quoted.basic_spelling hs
      exact ⟨'"' :: src, rfl, .basic hsp⟩
    · obtain ⟨⟨text, rest'⟩, hs, he⟩ := Option.map_eq_some_iff.1 h
      obtain ⟨rfl, rfl⟩ := Prod.mk.inj he
      obtain ⟨src, rfl, hsp⟩ := Quoted.literal_spelling hs
      exact ⟨'\'' :: src, rfl, .literal hsp⟩
    · rename_i hd hs
      exfalso
      refine hq fun c hc => ?_
      cases s with
      | nil => cases hc
      | cons d s =>
        obtain rfl : d = c := by simpa using hc
        refine ⟨?_, ?_⟩
        · rintro rfl
          exact hd s rfl
        · rintro rfl
          exact hs s rfl

theorem dottedKeyUpTo_succ (n : Nat) (s : List Char) :
    dottedKeyUpTo (n + 1) s = (key (dropSpaces s)).bind fun p =>
      match dropSpaces p.2 with
      | '.' :: more => (dottedKeyUpTo n more).map fun q => (p.1 :: q.1, q.2)
      | rest => some ([p.1], rest) := by
  rw [dottedKeyUpTo]
  cases key (dropSpaces s) <;> rfl

/-- A dotted key is read by its grammar, if there is fuel for each of its names. -/
theorem KeyText.dottedKeyUpTo (h : KeyText src names) (hn : names.length ≤ n) (hr : EndsKey r) :
    dottedKeyUpTo n (src ++ r) = some (names, r) := by
  induction h generalizing n with
  | @last s src t name hs h ht =>
    obtain ⟨n, rfl⟩ : ∃ k, n = k + 1 := ⟨n - 1, by simp at hn; omega⟩
    have hrs : ∀ c ∈ r.head?, Quoted.isSpace c = false := by
      intro c hc
      rcases hr c hc with rfl | rfl <;> decide
    have hk := h.key (ht.endsPart_append hr.endsPart)
    rw [dottedKeyUpTo_succ, List.append_assoc, List.append_assoc,
      dropSpaces_append hs (h.not_space (t ++ r)), hk, Option.bind_some, dropSpaces_append ht hrs]
    split
    · exact absurd (hr '.' rfl) (by decide)
    · rfl
  | @cons s src t more name names hs h ht hm ih =>
    obtain ⟨n, rfl⟩ : ∃ k, n = k + 1 := ⟨n - 1, by simp at hn; omega⟩
    have hk := h.key (r := t ++ '.' :: (more ++ r)) (ht.endsPart_append (endsPart_point _))
    rw [dottedKeyUpTo_succ, List.append_assoc, List.append_assoc, List.append_assoc,
      List.cons_append, dropSpaces_append hs (h.not_space _), hk, Option.bind_some,
      dropSpaces_append ht (by simp [Quoted.isSpace])]
    simp only [ih (by simpa using hn)]
    rfl

theorem KeyText.length_le (h : KeyText src names) : names.length ≤ src.length := by
  induction h with
  | last hs h ht =>
    have := List.length_pos_iff.2 h.ne_nil
    simp only [List.length_append, List.length_cons, List.length_nil]
    omega
  | cons hs h ht hm ih =>
    simp only [List.length_append, List.length_cons]
    omega

theorem KeyText.dottedKey (h : KeyText src names) (hr : EndsKey r) :
    dottedKey (src ++ r) = some (names, r) := by
  refine h.dottedKeyUpTo ?_ hr
  have := h.length_le
  rw [List.length_append]
  omega

theorem exists_keyText (h : Toml.dottedKeyUpTo n s = some (names, rest)) :
    ∃ src, s = src ++ rest ∧ KeyText src names := by
  induction n generalizing s names with
  | zero => cases h
  | succ n ih =>
    rw [dottedKeyUpTo_succ] at h
    obtain ⟨⟨name, mid⟩, hk, h⟩ := Option.bind_eq_some_iff.1 h
    obtain ⟨src, he, hp⟩ := exists_keyPart hk
    obtain ⟨s₁, hs₁, hs⟩ := exists_spaces s
    obtain ⟨t, ht, hmid⟩ := exists_spaces mid
    split at h
    · rename_i more heq
      obtain ⟨⟨names', rest'⟩, hn, he'⟩ := Option.map_eq_some_iff.1 h
      obtain ⟨rfl, rfl⟩ := Prod.mk.inj he'
      obtain ⟨src', rfl, hk'⟩ := ih hn
      refine ⟨_, ?_, .cons hs₁ hp ht hk'⟩
      rw [hs, he, hmid, heq]
      simp
    · obtain ⟨rfl, rfl⟩ := Prod.mk.inj (Option.some.inj h)
      refine ⟨_, ?_, .last hs₁ hp ht⟩
      rw [List.append_assoc, List.append_assoc, ← hmid, ← he, ← hs]

end WakeConfig.Toml
