import WakeConfig.Proofs.Toml.Keys

/-!
# Keys of a marked text

Marking turns a dotted key into a dotted key, but of other names: a name without quotes that is a
float token gets the marker, and so do two names that make one with the point between them. The
names change only from the first such name on, and only names that look like a number can change.
-/

namespace WakeConfig.Toml

open Text (isDigit)
open FloatLiteral (isDelimiter isFloatToken isNumeral mark marker Stops cutToken Piece)

/-! ## Names that can change -/

/-- Whether a name looks like a number or a marked one. -/
def mayChange (name : String) : Bool := FloatLiteral.isMarked name || isNumeral name.toList

/-- Two paths that are the same up to the first name that can change. -/
inductive Respelled : List String → List String → Prop where
  | nil : Respelled [] []
  | cons {name names names'} (h : Respelled names names') :
    Respelled (name :: names) (name :: names')
  | change {name name' names names'} (h : mayChange name = true) (h' : mayChange name' = true) :
    Respelled (name :: names) (name' :: names')

variable {c : Char} {s t r src tail w y more : List Char} {name name' : String}
  {names names' : List String}

theorem mayChange_marked (w : List Char) :
    mayChange (String.ofList (marker.toList ++ w)) = true := by
  have h : FloatLiteral.isMarked (String.ofList (marker.toList ++ w)) = true := by
    unfold FloatLiteral.isMarked
    rw [String.toList_ofList]
    exact List.isPrefixOf_iff_prefix.2 ⟨w, rfl⟩
  rw [mayChange, h, Bool.true_or]

theorem mayChange_of_isNumeral (h : isNumeral w = true) :
    mayChange (String.ofList w) = true := by
  rw [mayChange, String.toList_ofList, h, Bool.or_true]

/-! ## Inside a word -/

/-- Marks a text that starts inside a word: the rest of the word is copied. -/
def markMid (s : List Char) : List Char := (cutToken s).1 ++ mark (cutToken s).2

theorem cutToken_of_delimiter (h : ∀ c ∈ s.head?, isDelimiter c = true) : cutToken s = ([], s) :=
  FloatLiteral.cutToken_word (w := []) (by simp) h

theorem markMid_of_delimiter (h : ∀ c ∈ s.head?, isDelimiter c = true) : markMid s = mark s := by
  rw [markMid, cutToken_of_delimiter h, List.nil_append]

theorem cutToken_word_append (hw : ∀ c ∈ w, isDelimiter c = false) (s : List Char) :
    cutToken (w ++ s) = (w ++ (cutToken s).1, (cutToken s).2) := by
  induction w with
  | nil => rfl
  | cons c w ih =>
    rw [List.cons_append, cutToken, hw c List.mem_cons_self,
      ih fun x hx => hw x (List.mem_cons_of_mem c hx)]
    rfl

theorem markMid_word_append (hw : ∀ c ∈ w, isDelimiter c = false) (s : List Char) :
    markMid (w ++ s) = w ++ markMid s := by
  rw [markMid, cutToken_word_append hw, List.append_assoc, ← markMid]

/-- What follows a delimiter does not matter to the word in front of it. -/
theorem cutToken_append_of_delimiter (s : List Char) (hr : ∀ c ∈ r.head?, isDelimiter c = true) :
    cutToken (s ++ r) = ((cutToken s).1, (cutToken s).2 ++ r) := by
  induction s with
  | nil => exact cutToken_of_delimiter hr
  | cons c s ih =>
    rw [List.cons_append, cutToken, cutToken]
    split
    · rfl
    · rw [ih]
      rfl

/-- A word at the front of a text: it is marked together with what follows in the same word. -/
theorem mark_word_append (hne : w ≠ []) (hw : ∀ c ∈ w, isDelimiter c = false) (s : List Char) :
    mark (w ++ s) = if isFloatToken (w ++ (cutToken s).1) then
        (Piece.float (w ++ (cutToken s).1)).marked ++ mark (cutToken s).2
      else w ++ markMid s := by
  obtain ⟨c, w, rfl⟩ := List.exists_cons_of_ne_nil hne
  have hc := cutToken_word_append (fun x hx => hw x (List.mem_cons_of_mem c hx)) s
  rw [List.cons_append, FloatLiteral.mark_token (hw c List.mem_cons_self), hc]
  show (Piece.ofToken (c :: w ++ (cutToken s).1)).marked ++ mark (cutToken s).2 = _
  unfold Piece.ofToken
  by_cases hf : isFloatToken (c :: w ++ (cutToken s).1) = true
  · rw [if_pos hf, if_pos hf]
  · rw [if_neg hf, if_neg hf, FloatLiteral.marked_verbatim, markMid, List.append_assoc]

theorem mark_point (s : List Char) : mark ('.' :: s) = '.' :: markMid s := by
  have hf : isFloatToken ('.' :: (cutToken s).1) = false := by
    cases h : isFloatToken ('.' :: (cutToken s).1) with
    | false => rfl
    | true =>
      have := (FloatLiteral.isFloatToken_point (w := []) (by simp) h).1
      revert this
      decide
  have hm := mark_word_append (w := ['.']) (by simp)
    (FloatLiteral.not_delimiter_of_all (by decide)) s
  rw [List.singleton_append, List.singleton_append, hf, if_neg Bool.false_ne_true] at hm
  exact hm

theorem markMid_point (s : List Char) : markMid ('.' :: s) = '.' :: markMid s :=
  markMid_word_append (w := ['.']) (FloatLiteral.not_delimiter_of_all (by decide)) s

theorem mark_spaces (hs : AllSpace s) (r : List Char) : mark (s ++ r) = s ++ mark r := by
  induction s with
  | nil => rfl
  | cons c s ih =>
    obtain ⟨h, hn, hd, hq⟩ := FloatLiteral.isSpace_delimiter (hs c List.mem_cons_self)
    rw [List.cons_append, FloatLiteral.mark_delimiter h hn hd hq,
      ih fun x hx => hs x (List.mem_cons_of_mem c hx)]
    rfl

theorem markMid_spaces (hne : s ≠ []) (hs : AllSpace s) (r : List Char) :
    markMid (s ++ r) = s ++ mark r := by
  rw [markMid_of_delimiter, mark_spaces hs]
  intro c hc
  cases s with
  | nil => exact absurd rfl hne
  | cons d s =>
    obtain rfl : d = c := by simpa using hc
    exact (FloatLiteral.isSpace_delimiter (hs d List.mem_cons_self)).1

/-! ## Parts of a key -/

/-- A marked name is a string on one line. -/
theorem keyPart_marked (h : isFloatToken w = true) :
    KeyPart (Piece.float w).marked (String.ofList (marker.toList ++ w)) := by
  obtain ⟨src, he, hsp⟩ := Quoted.basic_spelling (Quoted.basic_marked h [])
  rw [List.append_nil] at he
  have hm : (Piece.float w).marked = '"' :: src := by
    rw [← he]
    show "\"\\uE000toml-float:".toList ++ w ++ ['"'] = _
    rw [List.append_assoc]
    rfl
  rw [hm]
  exact .basic hsp

theorem not_delimiter_of_bare (hw : ∀ c ∈ w, isBareKeyChar c = true) :
    ∀ c ∈ w, isDelimiter c = false := fun c hc => not_delimiter_of_isBareKeyChar (hw c hc)

theorem point_not_mem_of_bare (hw : ∀ c ∈ w, isBareKeyChar c = true) : '.' ∉ w := by
  intro hp
  have := hw '.' hp
  revert this
  decide

/-- What may stand behind one name of a key: spaces, and perhaps a point and more names. -/
def TailText (tail : List Char) (names : List String) : Prop :=
  (AllSpace tail ∧ names = []) ∨
    ∃ t more, tail = t ++ '.' :: more ∧ AllSpace t ∧ KeyText more names

theorem KeyText.exists_tail (h : KeyText src names) :
    ∃ s part tail name names', src = s ++ (part ++ tail) ∧ names = name :: names' ∧ AllSpace s ∧
      KeyPart part name ∧ TailText tail names' := by
  cases h with
  | last hs h ht => exact ⟨_, _, _, _, _, rfl, rfl, hs, h, .inl ⟨ht, rfl⟩⟩
  | cons hs h ht hm => exact ⟨_, _, _, _, _, rfl, rfl, hs, h, .inr ⟨_, _, rfl, ht, hm⟩⟩

theorem KeyPart.keyText (h : KeyPart src name) (hs : AllSpace s) (ht : TailText tail names) :
    KeyText (s ++ (src ++ tail)) (name :: names) := by
  rcases ht with ⟨ht, rfl⟩ | ⟨t, more, rfl, ht, hm⟩
  · exact .last hs h ht
  · exact .cons hs h ht hm

theorem TailText.endsPart (h : TailText tail names) (hr : EndsKey r) : EndsPart (tail ++ r) := by
  rcases h with ⟨ht, rfl⟩ | ⟨t, more, rfl, ht, hm⟩
  · exact ht.endsPart_append hr.endsPart
  · rw [List.append_assoc]
    exact ht.endsPart_append (endsPart_point _)

/-- A key is marked by `f` to a key wherever it stands, its names respelled. -/
def MarksTo (f : List Char → List Char) (src : List Char) (names : List String) : Prop :=
  ∃ src' names', KeyText src' names' ∧ Respelled names names' ∧
    ∀ r, EndsKey r → f (src ++ r) = src' ++ mark r

/-- The same for what stands behind a name, inside the word of that name or not. -/
def TailMarksTo (tail : List Char) (names : List String) : Prop :=
  ∃ tail' names', TailText tail' names' ∧ Respelled names names' ∧
    ∀ r, EndsKey r → mark (tail ++ r) = tail' ++ mark r ∧ markMid (tail ++ r) = tail' ++ mark r

theorem TailText.tailMarksTo (h : TailText tail names)
    (ih : ∀ t more, tail = t ++ '.' :: more → KeyText more names → MarksTo markMid more names) :
    TailMarksTo tail names := by
  rcases h with ⟨ht, rfl⟩ | ⟨t, more, rfl, ht, hm⟩
  · refine ⟨tail, [], .inl ⟨ht, rfl⟩, .nil, fun r hr => ⟨mark_spaces ht r, ?_⟩⟩
    rw [markMid_of_delimiter fun c hc => (ht.stops_append hr.stops c hc).1, mark_spaces ht]
  · obtain ⟨more', names', hk, hn, hmark⟩ := ih t more rfl hm
    refine ⟨t ++ '.' :: more', names', .inr ⟨t, more', rfl, ht, hk⟩, hn, fun r hr => ?_⟩
    have hp : mark ('.' :: (more ++ r)) = '.' :: (more' ++ mark r) := by
      rw [mark_point, hmark r hr]
    have he : t ++ '.' :: more ++ r = t ++ '.' :: (more ++ r) := by simp
    rw [he, mark_spaces ht, hp]
    refine ⟨by simp, ?_⟩
    by_cases hne : t = []
    · subst hne
      rw [List.nil_append, markMid_point, hmark r hr]
      rfl
    · rw [markMid_spaces hne ht, hp]
      simp

/-- A name in quotes is copied. -/
theorem mark_quoted {q : Char} {text : List Char} {read : List Char → Read (List Char)}
    (hq : q = '"' ∨ q = '\'') (h : Quoted.Spelling q read text src)
    (hr : ∀ c ∈ r.head?, c ≠ q) : mark (q :: src ++ r) = q :: src ++ mark r := by
  rw [List.cons_append, FloatLiteral.mark_quote hq, h.cut r hr]
  rfl

theorem mark_float (h : isFloatToken (w ++ (cutToken s).1) = true) (hne : w ≠ [])
    (hw : ∀ c ∈ w, isDelimiter c = false) :
    mark (w ++ s) = (Piece.float (w ++ (cutToken s).1)).marked ++ mark (cutToken s).2 := by
  rw [mark_word_append hne hw, if_pos h]

/-- A word ends with a name, unless a point follows at once. -/
theorem TailText.cutToken (h : TailText tail names) :
    cutToken tail = ([], tail) ∨ ∃ more, tail = '.' :: more ∧ KeyText more names := by
  rcases h with ⟨ht, rfl⟩ | ⟨t, more, rfl, ht, hm⟩
  · left
    refine cutToken_of_delimiter fun c hc => ?_
    exact (FloatLiteral.isSpace_delimiter (ht c (List.mem_of_mem_head? hc))).1
  · cases t with
    | nil => exact .inr ⟨more, rfl, hm⟩
    | cons x t =>
      left
      refine cutToken_of_delimiter fun c hc => ?_
      obtain rfl : x = c := by simpa using hc
      exact (FloatLiteral.isSpace_delimiter (ht x List.mem_cons_self)).1

/-- A key that starts with a digit starts with a name without quotes. -/
theorem KeyText.exists_bare (h : KeyText src names) (hd : ∃ d ∈ src.head?, isDigit d = true) :
    ∃ w tail names', src = w ++ tail ∧ names = String.ofList w :: names' ∧
      (∀ c ∈ w, isBareKeyChar c = true) ∧ TailText tail names' := by
  obtain ⟨s, part, tail, name, names', rfl, rfl, hs, hp, ht⟩ := h.exists_tail
  obtain ⟨d, hd, hdig⟩ := hd
  cases s with
  | cons x s =>
    obtain rfl : x = d := by simpa using hd
    have := isBareKeyChar_of_isDigit hdig
    rw [(isSpace_endsPart (hs x List.mem_cons_self)).1] at this
    cases this
  | nil =>
    cases hp with
    | basic =>
      obtain rfl : '"' = d := by simpa using hd
      exact absurd hdig (by decide)
    | literal =>
      obtain rfl : '\'' = d := by simpa using hd
      exact absurd hdig (by decide)
    | bare hne hw => exact ⟨part, tail, names', rfl, rfl, hw, ht⟩

theorem cutToken_point (s : List Char) :
    cutToken ('.' :: s) = ('.' :: (cutToken s).1, (cutToken s).2) :=
  cutToken_word_append (w := ['.']) (FloatLiteral.not_delimiter_of_all (by decide)) s

/-- Where a name without quotes goes into a float token, the name looks like a number, and a name
ends behind the token: it is this one, or the one behind the next point. -/
theorem tailText_behind_float (ht : TailText tail names) (hw : ∀ c ∈ w, isBareKeyChar c = true)
    (hf : isFloatToken (w ++ (cutToken tail).1) = true) :
    isNumeral w = true ∧ ∃ names', TailText (cutToken tail).2 names' := by
  rcases ht.cutToken with hnil | ⟨more, rfl, hm⟩
  · rw [hnil, List.append_nil] at hf
    rw [hnil]
    exact ⟨by simp [isNumeral, hf], names, ht⟩
  · rw [cutToken_point] at hf ⊢
    obtain ⟨hnum, hnp, d, hd, hdig⟩ :=
      FloatLiteral.isFloatToken_point (point_not_mem_of_bare hw) hf
    have hdm : ∃ d ∈ more.head?, isDigit d = true := by
      refine ⟨d, ?_, hdig⟩
      rw [← FloatLiteral.cutToken_append more]
      exact Number.head?_append_of_mem hd _
    obtain ⟨w', tail, names', rfl, rfl, hw', ht'⟩ := hm.exists_bare hdm
    have hwd' := not_delimiter_of_bare hw'
    have hcut : cutToken tail = ([], tail) := by
      refine ht'.cutToken.resolve_right ?_
      rintro ⟨more, rfl, -⟩
      rw [cutToken_word_append hwd', cutToken_point] at hnp
      exact hnp (List.mem_append_right _ List.mem_cons_self)
    rw [cutToken_word_append hwd', hcut]
    exact ⟨hnum, names', ht'⟩

/-- A name without quotes that goes into a float token, alone or with the name behind it. -/
theorem marksTo_float (hne : w ≠ []) (hw : ∀ c ∈ w, isBareKeyChar c = true)
    (ht : TailText tail names) (hf : isFloatToken (w ++ (cutToken tail).1) = true)
    (ih : ∀ tail' names', tail'.length ≤ tail.length → TailText tail' names' →
      TailMarksTo tail' names') :
    MarksTo mark (w ++ tail) (String.ofList w :: names) := by
  obtain ⟨hnum, names', hbehind⟩ := tailText_behind_float ht hw hf
  have hlen : (cutToken tail).2.length ≤ tail.length := by
    have h := congrArg List.length (FloatLiteral.cutToken_append tail)
    rw [List.length_append] at h
    omega
  obtain ⟨tail', names', htt, hn, hmark⟩ := ih _ _ hlen hbehind
  refine ⟨_, _, (keyPart_marked hf).keyText (s := []) (by simp [AllSpace]) htt,
    .change (mayChange_of_isNumeral hnum) (mayChange_marked _), fun r hr => ?_⟩
  have hcut := cutToken_append_of_delimiter tail fun c hc => (hr.stops c hc).1
  have hf' : isFloatToken (w ++ (cutToken (tail ++ r)).1) = true := by
    rw [hcut]
    exact hf
  rw [List.append_assoc, mark_float hf' hne (not_delimiter_of_bare hw), hcut, (hmark r hr).1]
  simp

/-- A name without quotes and what stands behind it. -/
theorem marksTo_bare (hne : w ≠ []) (hw : ∀ c ∈ w, isBareKeyChar c = true)
    (ht : TailText tail names)
    (ih : ∀ tail' names', tail'.length ≤ tail.length → TailText tail' names' →
      TailMarksTo tail' names') :
    MarksTo mark (w ++ tail) (String.ofList w :: names) ∧
      MarksTo markMid (w ++ tail) (String.ofList w :: names) := by
  have hwd := not_delimiter_of_bare hw
  obtain ⟨tail', names', htt, hn, hmark⟩ := ih tail names (Nat.le_refl _) ht
  have hkey : KeyText (w ++ tail') (String.ofList w :: names') :=
    (KeyPart.bare hne hw).keyText (s := []) (by simp [AllSpace]) htt
  refine ⟨?_, _, _, hkey, .cons hn, fun r hr => ?_⟩
  · by_cases hf : isFloatToken (w ++ (cutToken tail).1) = true
    · exact marksTo_float hne hw ht hf ih
    · refine ⟨_, _, hkey, .cons hn, fun r hr => ?_⟩
      have hcut := cutToken_append_of_delimiter tail fun c hc => (hr.stops c hc).1
      rw [List.append_assoc, mark_word_append hne hwd, hcut, if_neg hf, (hmark r hr).2,
        List.append_assoc]
  · rw [List.append_assoc, markMid_word_append hwd, (hmark r hr).2, List.append_assoc]

/-- A name in quotes and what stands behind it. -/
theorem marksTo_quoted {q : Char} {text : List Char} {read : List Char → Read (List Char)}
    (hq : q = '"' ∨ q = '\'') (hsp : Quoted.Spelling q read text src)
    (hp : KeyPart (q :: src) name) (ht : TailText tail names) (htm : TailMarksTo tail names) :
    MarksTo mark (q :: src ++ tail) (name :: names) ∧
      MarksTo markMid (q :: src ++ tail) (name :: names) := by
  obtain ⟨tail', names', htt, hn, hmark⟩ := htm
  have hkey : KeyText (q :: src ++ tail') (name :: names') :=
    hp.keyText (s := []) (by simp [AllSpace]) htt
  have hcopy : ∀ r, EndsKey r → mark (q :: src ++ tail ++ r) = q :: src ++ tail' ++ mark r := by
    intro r hr
    have hne : ∀ c ∈ (tail ++ r).head?, c ≠ q := by
      intro c hc
      have := (ht.endsPart hr c hc).2
      rcases hq with rfl | rfl
      · exact this.1
      · exact this.2
    rw [List.append_assoc, mark_quoted hq hsp hne, (hmark r hr).1, List.append_assoc]
  refine ⟨⟨_, _, hkey, .cons hn, hcopy⟩, _, _, hkey, .cons hn, fun r hr => ?_⟩
  rw [markMid_of_delimiter, hcopy r hr]
  intro c hc
  obtain rfl : q = c := by simpa using hc
  rcases hq with rfl | rfl <;> decide

theorem KeyText.spaces (h : KeyText src names) (hs : AllSpace s) : KeyText (s ++ src) names := by
  obtain ⟨s', part, tail, name, names', rfl, rfl, hs', hp, ht⟩ := h.exists_tail
  rw [← List.append_assoc]
  refine hp.keyText ?_ ht
  intro c hc
  exact (List.mem_append.1 hc).elim (hs c) (hs' c)

/-- Spaces in front are copied, and behind them it does not matter where the key stands. -/
theorem MarksTo.spaces (h : MarksTo mark src names ∧ MarksTo markMid src names)
    (hs : AllSpace s) : MarksTo mark (s ++ src) names ∧ MarksTo markMid (s ++ src) names := by
  by_cases hne : s = []
  · subst hne
    exact h
  · obtain ⟨src', names', hk, hn, hmark⟩ := h.1
    refine ⟨⟨_, _, hk.spaces hs, hn, fun r hr => ?_⟩, _, _, hk.spaces hs, hn, fun r hr => ?_⟩
    · rw [List.append_assoc, mark_spaces hs, hmark r hr, List.append_assoc]
    · rw [List.append_assoc, markMid_spaces hne hs, hmark r hr, List.append_assoc]

theorem KeyText.marksTo (h : KeyText src names)
    (ih : ∀ tail names', tail.length < src.length → TailText tail names' →
      TailMarksTo tail names') :
    MarksTo mark src names ∧ MarksTo markMid src names := by
  obtain ⟨s, part, tail, name, names, rfl, rfl, hs, hp, ht⟩ := h.exists_tail
  have hlen : tail.length < (s ++ (part ++ tail)).length := by
    have := List.length_pos_iff.2 hp.ne_nil
    simp only [List.length_append]
    omega
  refine MarksTo.spaces ?_ hs
  cases hp with
  | basic hsp => exact marksTo_quoted (.inl rfl) hsp (.basic hsp) ht (ih tail names hlen ht)
  | literal hsp => exact marksTo_quoted (.inr rfl) hsp (.literal hsp) ht (ih tail names hlen ht)
  | bare hne hw =>
    exact marksTo_bare hne hw ht fun tail' names' hl => ih tail' names' (Nat.lt_of_le_of_lt hl hlen)

theorem tailMarksTo (h : TailText tail names) : TailMarksTo tail names := by
  induction hn : tail.length using Nat.strongRecOn generalizing tail names with
  | _ n ih =>
    refine h.tailMarksTo fun t more he hm => (hm.marksTo fun tail' names' hl ht => ?_).2
    refine ih tail'.length ?_ ht rfl
    rw [← hn, he, List.length_append, List.length_cons]
    omega

/-- A key is marked to a key. -/
theorem KeyText.mark (h : KeyText src names) : MarksTo FloatLiteral.mark src names :=
  (h.marksTo fun _ _ _ ht => tailMarksTo ht).1

end WakeConfig.Toml
