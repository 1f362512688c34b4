import WakeConfig.Toml.Document
import WakeConfig.Toml.FloatLiteral

/-!
# What marking does to a text

`FloatLiteral.mark` is followed here from the front of a text: what it writes for a delimiter, a
comment, a string and a word, each time in front of the rest with its own floats marked. Dropping
blanks and comments therefore commutes with marking.
-/

namespace WakeConfig.Toml.FloatLiteral

variable {c q : Char} {s r w : List Char}

/-! ## The first piece -/

/-- Whether a text is at its end or at a character that ends a word and opens no string. -/
def Stops (s : List Char) : Prop := ∀ c ∈ s.head?, isDelimiter c = true ∧ c ≠ '"' ∧ c ≠ '\''

theorem stops_nil : Stops [] := by simp [Stops]

theorem Stops.delimiter (h : Stops s) : ∀ c ∈ s.head?, isDelimiter c = true :=
  fun c hc => (h c hc).1

/-- A given word holds no delimiter. -/
theorem not_delimiter_of_all (h : w.all (fun c => !isDelimiter c) = true) :
    ∀ c ∈ w, isDelimiter c = false := by
  intro c hc
  simpa using List.all_eq_true.1 h c hc

theorem stops_cons (h : isDelimiter c = true) (hd : c ≠ '"') (hs : c ≠ '\'') :
    Stops (c :: s) := by
  intro x hx
  obtain rfl : c = x := by simpa using hx
  exact ⟨h, hd, hs⟩

theorem mark_nil : mark [] = [] := by simp [mark, pieces]

theorem mark_cons (c : Char) (s : List Char) :
    mark (c :: s) = (firstPiece c s).1.marked ++ mark (firstPiece c s).2 := by
  rw [mark, pieces, List.flatMap_cons, mark]

theorem marked_verbatim (chars : List Char) : (Piece.verbatim chars).marked = chars := rfl

/-- A delimiter that opens nothing is copied. -/
theorem mark_delimiter (h : isDelimiter c = true) (hn : c ≠ '#') (hd : c ≠ '"') (hs : c ≠ '\'') :
    mark (c :: s) = c :: mark s := by
  have hp : firstPiece c s = (.verbatim [c], s) := by
    unfold firstPiece
    rw [if_neg hn, if_neg (by simp [hd, hs]), if_pos h]
  rw [mark_cons, hp, marked_verbatim]
  rfl

/-- A comment is copied up to the end of its line. -/
theorem mark_comment (s : List Char) :
    mark ('#' :: s) = '#' :: ((cutLine s).1 ++ mark (cutLine s).2) := by
  rw [mark_cons]
  rfl

/-- A string is copied with its quotes. -/
theorem mark_quote (h : q = '"' ∨ q = '\'') :
    mark (q :: s) = q :: ((cutString q s).1 ++ mark (cutString q s).2) := by
  have hn : q ≠ '#' := by rcases h with rfl | rfl <;> decide
  have hp : firstPiece q s = (.verbatim (q :: (cutString q s).1), (cutString q s).2) := by
    unfold firstPiece
    rw [if_neg hn, if_pos h]
  rw [mark_cons, hp, marked_verbatim]
  rfl

theorem cutToken_word (hw : ∀ c ∈ w, isDelimiter c = false)
    (hr : ∀ c ∈ r.head?, isDelimiter c = true) : cutToken (w ++ r) = (w, r) := by
  induction w with
  | nil =>
    cases r with
    | nil => rfl
    | cons c r => simp [cutToken, hr c (by simp)]
  | cons c w ih =>
    rw [List.cons_append, cutToken, hw c (by simp), ih fun x hx => hw x (by simp [hx])]
    rfl

theorem not_delimiter_quote {c : Char} (h : isDelimiter c = false) :
    c ≠ '#' ∧ c ≠ '"' ∧ c ≠ '\'' := by
  refine ⟨?_, ?_, ?_⟩ <;> (rintro rfl; revert h; decide)

/-- The word at the front of a text is copied or, if it is a float, marked. -/
theorem mark_token (h : isDelimiter c = false) (s : List Char) :
    mark (c :: s) = (Piece.ofToken (c :: (cutToken s).1)).marked ++ mark (cutToken s).2 := by
  obtain ⟨hn, hd, hs⟩ := not_delimiter_quote h
  have hp : firstPiece c s = (.ofToken (c :: (cutToken s).1), (cutToken s).2) := by
    unfold firstPiece
    rw [if_neg hn, if_neg (by simp [hd, hs]), if_neg (by simp [h])]
  rw [mark_cons, hp]

/-- A word in front of a delimiter is copied or, if it is a float, marked. -/
theorem mark_word (hne : w ≠ []) (hw : ∀ c ∈ w, isDelimiter c = false)
    (hr : ∀ c ∈ r.head?, isDelimiter c = true) :
    mark (w ++ r) = (Piece.ofToken w).marked ++ mark r := by
  obtain ⟨c, w, rfl⟩ := List.exists_cons_of_ne_nil hne
  have h : cutToken (w ++ r) = (w, r) :=
    cutToken_word (fun x hx => hw x (List.mem_cons_of_mem c hx)) hr
  rw [List.cons_append, mark_token (hw c List.mem_cons_self), h]

/-- A word that is no float token, or nothing at all. -/
def IsCopied (w : List Char) : Prop := (∀ c ∈ w, isDelimiter c = false) ∧ isFloatToken w = false

theorem isCopied_nil : IsCopied [] := by
  refine ⟨by simp, ?_⟩
  decide

theorem mark_copied (hw : IsCopied w) (hr : Stops r) : mark (w ++ r) = w ++ mark r := by
  by_cases hne : w = []
  · rw [hne, List.nil_append, List.nil_append]
  · rw [mark_word hne hw.1 hr.delimiter, Piece.ofToken, if_neg (by simp [hw.2]),
      marked_verbatim]

/-- A marked text starts as the text does, or with the quote of a marked float. -/
theorem mark_head (c : Char) (s : List Char) :
    ∃ d t, mark (c :: s) = d :: t ∧ (d = c ∨ isDelimiter c = false ∧ d = '"') := by
  by_cases hc : isDelimiter c = true
  · rw [mark_cons]
    unfold firstPiece
    simp only [hc]
    split
    · exact ⟨c, _, rfl, .inl rfl⟩
    · split
      · exact ⟨c, _, rfl, .inl rfl⟩
      · exact ⟨c, _, rfl, .inl rfl⟩
  · rw [Bool.not_eq_true] at hc
    rw [mark_token hc, Piece.ofToken]
    split
    · exact ⟨'"', _, rfl, .inr ⟨hc, rfl⟩⟩
    · exact ⟨c, _, rfl, .inl rfl⟩

/-- At the end of a word marking keeps the next character. -/
theorem head?_mark (h : Stops s) : (mark s).head? = s.head? := by
  cases s with
  | nil => rw [mark_nil]
  | cons c s =>
    obtain ⟨d, t, hm, rfl | ⟨hc, -⟩⟩ := mark_head c s
    · rw [hm, List.head?_cons, List.head?_cons]
    · rw [(h c (by simp)).1] at hc
      cases hc

/-! ## Blanks and comments -/

/-- Dropping characters that marking copies one by one commutes with marking. -/
theorem dropWhile_mark {p : Char → Bool}
    (hp : ∀ c, p c = true → isDelimiter c = true ∧ c ≠ '#' ∧ c ≠ '"' ∧ c ≠ '\'')
    (s : List Char) : (mark s).dropWhile p = mark (s.dropWhile p) := by
  induction s with
  | nil => rw [mark_nil, List.dropWhile_nil, mark_nil]
  | cons c s ih =>
    by_cases hc : p c = true
    · obtain ⟨h, hn, hd, hs⟩ := hp c hc
      rw [mark_delimiter h hn hd hs, List.dropWhile_cons_of_pos hc, List.dropWhile_cons_of_pos hc,
        ih]
    · have hq : ¬p '"' = true := fun h => (hp '"' h).2.2.1 rfl
      rw [List.dropWhile_cons_of_neg hc]
      obtain ⟨d, t, hm, rfl | ⟨-, rfl⟩⟩ := mark_head c s
      · rw [hm, List.dropWhile_cons_of_neg hc]
      · rw [hm, List.dropWhile_cons_of_neg hq]

theorem isSpace_delimiter {c : Char} (h : Quoted.isSpace c = true) :
    isDelimiter c = true ∧ c ≠ '#' ∧ c ≠ '"' ∧ c ≠ '\'' := by
  simp only [Quoted.isSpace, Bool.or_eq_true, beq_iff_eq] at h
  rcases h with rfl | rfl <;> decide

theorem isNewline_delimiter {c : Char} (h : Quoted.isNewline c = true) :
    isDelimiter c = true ∧ c ≠ '#' ∧ c ≠ '"' ∧ c ≠ '\'' := by
  simp only [Quoted.isNewline, Bool.or_eq_true, beq_iff_eq] at h
  rcases h with rfl | rfl <;> decide

theorem dropSpaces_mark (s : List Char) : dropSpaces (mark s) = mark (dropSpaces s) :=
  dropWhile_mark (fun _ => isSpace_delimiter) s

/-- A comment ends at the same place when what follows it is marked. -/
theorem dropLine_mark (s : List Char) :
    ((cutLine s).1 ++ mark (cutLine s).2).dropWhile (· != '\n')
      = mark (s.dropWhile (· != '\n')) := by
  induction s with
  | nil => simp [cutLine, mark_nil]
  | cons c s ih =>
    by_cases hc : c = '\n'
    · subst hc
      have hm := mark_delimiter (s := s) (c := '\n') (by decide) (by decide) (by decide) (by decide)
      simp [cutLine, hm]
    · simp [cutLine, grow, hc, ih]

/-- The end of a line is found in a marked text as in the text. -/
theorem lineEnd?_mark (s : List Char) : lineEnd? (mark s) = (lineEnd? s).map mark := by
  have hp : ∀ c, (Quoted.isSpace c || c == '\r') = true →
      isDelimiter c = true ∧ c ≠ '#' ∧ c ≠ '"' ∧ c ≠ '\'' := by
    intro c hc
    simp only [Bool.or_eq_true, beq_iff_eq] at hc
    rcases hc with hc | rfl
    · exact isSpace_delimiter hc
    · decide
  unfold lineEnd?
  rw [dropWhile_mark hp s]
  cases s.dropWhile (fun c => Quoted.isSpace c || c == '\r') with
  | nil => simp [mark_nil]
  | cons c t =>
    by_cases hl : c = '\n'
    · subst hl
      rw [mark_delimiter (by decide) (by decide) (by decide) (by decide)]
      rfl
    · by_cases hn : c = '#'
      · subst hn
        rw [mark_comment]
        simp [dropLine_mark]
      · obtain ⟨d, u, hm, hd⟩ := mark_head c t
        have hdl : d ≠ '\n' := by rcases hd with rfl | ⟨-, rfl⟩ <;> simp_all
        have hdn : d ≠ '#' := by rcases hd with rfl | ⟨-, rfl⟩ <;> simp_all
        rw [hm]
        simp [hl, hn, hdl, hdn]

/-- The text where the blanks of an array are dropped: marked as a whole or, inside a comment,
behind the end of the line. -/
def markBlanks (comment : Bool) (s : List Char) : List Char :=
  if comment then (cutLine s).1 ++ mark (cutLine s).2 else mark s

theorem dropArrayBlanks_markBlanks (comment : Bool) (s : List Char) :
    dropArrayBlanks comment (markBlanks comment s) = mark (dropArrayBlanks comment s) := by
  induction s generalizing comment with
  | nil => cases comment <;> simp [markBlanks, cutLine, mark_nil, dropArrayBlanks]
  | cons c s ih =>
    cases comment with
    | true =>
      by_cases hc : c = '\n'
      · subst hc
        have hm : mark ('\n' :: s) = '\n' :: mark s :=
          mark_delimiter (by decide) (by decide) (by decide) (by decide)
        simpa [markBlanks, cutLine, hm, dropArrayBlanks] using ih false
      · have hcn : (c != '\n') = true := by simpa using hc
        simpa [markBlanks, cutLine, grow, hc, dropArrayBlanks, hcn] using ih true
    | false =>
      have hf := ih false
      have ht := ih true
      simp only [markBlanks, Bool.false_eq_true, if_false, if_true] at hf ht ⊢
      by_cases hb : Quoted.isSpace c = true ∨ Quoted.isNewline c = true
      · obtain ⟨h, hn, hd, hs⟩ := hb.elim isSpace_delimiter isNewline_delimiter
        rw [mark_delimiter h hn hd hs]
        simp [dropArrayBlanks, hb, hf]
      · by_cases hn : c = '#'
        · subst hn
          rw [mark_comment]
          simpa [dropArrayBlanks, Quoted.isSpace, Quoted.isNewline] using ht
        · obtain ⟨d, u, hm, hd⟩ := mark_head c s
          have hdb : ¬(Quoted.isSpace d = true ∨ Quoted.isNewline d = true) := by
            rcases hd with rfl | ⟨-, rfl⟩
            · exact hb
            · decide
          have hdn : d ≠ '#' := by rcases hd with rfl | ⟨-, rfl⟩ <;> simp_all
          simp [hm, dropArrayBlanks, hb, hn, hdb, hdn]

theorem dropArrayBlanks_mark (s : List Char) :
    dropArrayBlanks false (mark s) = mark (dropArrayBlanks false s) :=
  dropArrayBlanks_markBlanks false s

end WakeConfig.Toml.FloatLiteral
