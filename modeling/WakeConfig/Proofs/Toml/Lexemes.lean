import Mathlib.Data.List.Chain
import WakeConfig.Proofs.Toml.Strings

/-!
# Lexemes

A text may be written as a sequence of comments, strings, delimiters and words, where what stands
side by side does not run together. `mark` finds these lexemes again, whatever is in the strings and
comments: `mark_lexemes` says that it replaces the words that are float tokens, copies all else, and
changes nothing the second time.
-/

namespace WakeConfig.Toml.FloatLiteral

/-! ## Letters of strings -/

/-- The quotes of a string. -/
inductive Quote where
  | double
  | single
  deriving Repr, DecidableEq

/-- The character of a quote. -/
def Quote.char : Quote → Char
  | double => '"'
  | single => '\''

/-- A letter of a string: a character as it is, or a backslash with the character that it takes with
it. -/
inductive Letter where
  | plain (c : Char)
  | escaped (c : Char)
  deriving Repr, DecidableEq

/-- The characters of a letter. -/
def Letter.source : Letter → List Char
  | plain c => [c]
  | escaped c => ['\\', c]

/-- Whether a letter may stand between such quotes. Between double quotes every backslash takes a
character with it, and between single quotes none does. -/
def Letter.fits : Quote → Letter → Bool
  | .double, plain c => c != '\\'
  | .double, escaped _ => true
  | .single, plain _ => true
  | .single, escaped _ => false

/-- The characters between the quotes of a string. -/
def bodySource (body : List Letter) : List Char := body.flatMap Letter.source

/-! ## Lexemes -/

/-- Whether a character is a delimiter of its own, which opens nothing. -/
def isSeparator (c : Char) : Bool :=
  Text.isBlank c || ['=', ',', '[', ']', '\x7b', '\x7d'].contains c

/-- Whether a character may stand in a word. -/
def isWordChar (c : Char) : Bool := !isSeparator c && !(['#', '"', '\''].contains c)

/-- A lexeme. A comment goes to the end of its line; a string on one line ends at the next quote
that no backslash takes; a string over several lines ends at the next three of them. -/
inductive Lexeme where
  | comment (chars : List Char) (oneLine : '\n' ∉ chars)
  | line (q : Quote) (body : List Letter) (fits : ∀ l ∈ body, l.fits q = true)
      (closed : .plain q.char ∉ body ∧ .plain '\n' ∉ body)
  | lines (q : Quote) (body : List Letter) (fits : ∀ l ∈ body, l.fits q = true)
      (closed : ¬List.replicate 3 (.plain q.char) <:+: body)
  | separator (c : Char) (separates : isSeparator c = true)
  | word (chars : List Char) (nonempty : chars ≠ []) (bare : ∀ c ∈ chars, isWordChar c = true)

namespace Lexeme

/-- The characters of a lexeme. -/
def source : Lexeme → List Char
  | comment chars _ => '#' :: chars
  | line q body _ _ => q.char :: (bodySource body ++ [q.char])
  | lines q body _ _ => .replicate 3 q.char ++ (bodySource body ++ .replicate 3 q.char)
  | separator c _ => [c]
  | word chars _ _ => chars

/-- The characters of a lexeme after marking: a float token is written as a string behind the
marker. -/
def marked : Lexeme → List Char
  | word chars _ _ =>
    if isFloatToken chars then "\"\\uE000toml-float:".toList ++ chars ++ ['"'] else chars
  | a => a.source

/-- Whether a lexeme is a comment. -/
def isComment : Lexeme → Bool
  | comment .. => true
  | _ => false

/-- Whether a lexeme is a string. -/
def isString : Lexeme → Bool
  | line .. => true
  | lines .. => true
  | _ => false

/-- Whether a lexeme is a word. -/
def isWord : Lexeme → Bool
  | word .. => true
  | _ => false

/-- Whether a lexeme is a float token. -/
def isFloat : Lexeme → Bool
  | word chars _ _ => isFloatToken chars
  | _ => false

/-- One lexeme may stand directly before another: only the end of a line follows a comment, no word
follows a word, and neither a string nor a float token follows a string. -/
def Before (a b : Lexeme) : Prop :=
  (a.isComment = true → b.source = ['\n']) ∧ (a.isWord = true → b.isWord = false) ∧
    (a.isString = true → b.isString = false ∧ b.isFloat = false)

instance (a b : Lexeme) : Decidable (Before a b) := inferInstanceAs (Decidable (_ ∧ _ ∧ _))

end Lexeme

/-! ## Characters -/

variable {c : Char} {r : List Char} {q : Quote} {body : List Letter} {l : Letter}

theorem isDelimiter_eq (c : Char) :
    isDelimiter c = (isSeparator c || ['#', '"', '\''].contains c) := by
  simp only [isDelimiter, isSeparator, List.contains_cons, List.contains_nil, Bool.or_false,
    Bool.or_assoc]

theorem isDelimiter_of_isSeparator (h : isSeparator c = true) : isDelimiter c = true := by
  rw [isDelimiter_eq, h, Bool.true_or]

/-- A separator opens neither a comment nor a string. -/
theorem ne_of_isSeparator (h : isSeparator c = true) : c ≠ '#' ∧ c ≠ '"' ∧ c ≠ '\'' := by
  refine ⟨?_, ?_, ?_⟩ <;> (rintro rfl; revert h; decide)

theorem isDelimiter_of_isWordChar (h : isWordChar c = true) : isDelimiter c = false := by
  rw [isDelimiter_eq]
  simpa [isWordChar] using h

theorem Quote.char_eq (q : Quote) : q.char = '"' ∨ q.char = '\'' := by
  cases q
  · exact .inl rfl
  · exact .inr rfl

theorem Quote.char_ne (q : Quote) : q.char ≠ '\\' ∧ q.char ≠ '\n' ∧ q.char ≠ '#' := by
  cases q <;> decide

/-! ## Cutting behind a string -/

theorem bodySource_cons (l : Letter) (body : List Letter) (s : List Char) :
    bodySource (l :: body) ++ s = l.source ++ (bodySource body ++ s) := by
  simp [bodySource]

/-- A letter other than a quote starts with another character. -/
theorem head?_bodySource_ne (hl : l ≠ .plain q.char) (body : List Letter) (s : List Char) :
    (bodySource (l :: body) ++ s).head? ≠ some q.char := by
  rw [bodySource_cons]
  cases l with
  | plain c => simpa [Letter.source] using hl
  | escaped c => simpa [Letter.source] using q.char_ne.1.symm

/-- Where a backslash stands for itself, it takes nothing with it. -/
theorem not_escapes_of_fits (h : (Letter.plain c).fits q = true) :
    ¬((q.char == '"') = true ∧ c = '\\') := by
  cases q with
  | double =>
    have hc : c ≠ '\\' := by simpa [Letter.fits] using h
    simp [hc]
  | single => simp [Quote.char]

theorem eq_double_of_fits (h : (Letter.escaped c).fits q = true) : q = .double := by
  cases q with
  | double => rfl
  | single => cases h

theorem cutQuoted_letter (hfits : l.fits q = true) (hq : l ≠ .plain q.char)
    (hn : l ≠ .plain '\n') (s : List Char) :
    cutQuoted q.char (q.char == '"') false (l.source ++ s)
      = (l.source ++ (cutQuoted q.char (q.char == '"') false s).1,
        (cutQuoted q.char (q.char == '"') false s).2) := by
  cases l with
  | plain c =>
    have hc : c ≠ '\n' ∧ c ≠ q.char := by simpa using And.intro hn hq
    show cutQuoted _ _ false (c :: s) = _
    rw [cutQuoted, if_neg Bool.false_ne_true, if_neg hc.1, if_neg (not_escapes_of_fits hfits),
      if_neg hc.2]
    rfl
  | escaped c =>
    obtain rfl := eq_double_of_fits hfits
    rfl

theorem cutTripled_letter (hfits : l.fits q = true) (hq : l ≠ .plain q.char) (s : List Char) :
    cutTripled q.char (q.char == '"') false (l.source ++ s)
      = (l.source ++ (cutTripled q.char (q.char == '"') false s).1,
        (cutTripled q.char (q.char == '"') false s).2) := by
  cases l with
  | plain c =>
    have hc : c ≠ q.char := by simpa using hq
    exact Quoted.cutTripled_of_ne hc (not_escapes_of_fits hfits) s
  | escaped c =>
    obtain rfl := eq_double_of_fits hfits
    rfl

/-- A string on one line is cut behind its closing quote. -/
theorem cutQuoted_body (fits : ∀ l ∈ body, l.fits q = true)
    (closed : .plain q.char ∉ body ∧ .plain '\n' ∉ body) (r : List Char) :
    cutQuoted q.char (q.char == '"') false (bodySource body ++ q.char :: r)
      = (bodySource body ++ [q.char], r) := by
  induction body with
  | nil =>
    obtain ⟨hb, hn, -⟩ := q.char_ne
    simp [bodySource, cutQuoted, hb, hn]
  | cons l body ih =>
    obtain ⟨hfits, hrest⟩ := List.forall_mem_cons.1 fits
    simp only [List.mem_cons, not_or] at closed
    obtain ⟨⟨hq, hqs⟩, hn, hns⟩ := closed
    rw [bodySource_cons, bodySource_cons, cutQuoted_letter hfits (Ne.symm hq) (Ne.symm hn),
      ih hrest ⟨hqs, hns⟩]

theorem cutQuotes_self (quote : Char) (n : Nat) (hr : ∀ c ∈ r.head?, c ≠ quote) (m : Nat) :
    cutQuotes quote (n + m) (.replicate n quote ++ r) = (.replicate n quote, r) := by
  induction n with
  | zero =>
    rw [Nat.zero_add]
    cases r with
    | nil => cases m <;> rfl
    | cons c r =>
      cases m with
      | zero => rfl
      | succ m => simp [cutQuotes, hr c rfl]
  | succ n ih =>
    rw [Nat.succ_add, List.replicate_succ, List.cons_append, cutQuotes, if_pos rfl, ih]
    rfl

/-- The closing quotes of a string over several lines: up to two more of them belong to it. -/
theorem cutTripled_quotes {n : Nat} (hn : n ≤ 2) (hr : ∀ c ∈ r.head?, c ≠ q.char) :
    cutTripled q.char (q.char == '"') false (.replicate (n + 3) q.char ++ r)
      = (.replicate (n + 3) q.char, r) := by
  have hcut := cutQuotes_self q.char (n + 3) hr (2 - n)
  rw [show n + 3 + (2 - n) = 5 by omega] at hcut
  have hpre : [q.char, q.char, q.char].isPrefixOf (.replicate (n + 3) q.char ++ r) = true := by
    simp [List.replicate_succ, List.isPrefixOf]
  rw [List.replicate_succ, List.cons_append] at hcut hpre ⊢
  rw [cutTripled, if_neg Bool.false_ne_true, if_neg (by simp [q.char_ne.1]), if_pos hpre, hcut]

theorem bodySource_replicate (n : Nat) (c : Char) :
    bodySource (.replicate n (.plain c)) = .replicate n c := by
  induction n with
  | zero => rfl
  | succ n ih => simp [List.replicate_succ, ← ih, bodySource, Letter.source]

theorem not_pair_of_head? {s : List Char} (h : s.head? ≠ some c) :
    ¬[c, c].isPrefixOf s = true := by
  intro hp
  rw [Quoted.eq_of_isPrefixOf_pair hp] at h
  exact h rfl

/-- Behind a quote in a string over several lines, the body is at its end with one quote more at
most, or its next two characters are not both quotes. -/
theorem quotes_or_not_pair (closed : ¬List.replicate 3 (.plain q.char) <:+: .plain q.char :: body) :
    (∃ n ≤ 1, body = .replicate n (.plain q.char)) ∨
      ∀ s, ¬[q.char, q.char].isPrefixOf (bodySource body ++ s) = true := by
  cases body with
  | nil => exact .inl ⟨0, by simp, rfl⟩
  | cons l body =>
    by_cases hl : l = .plain q.char
    · subst hl
      cases body with
      | nil => exact .inl ⟨1, by simp, rfl⟩
      | cons l body =>
        have hl : l ≠ .plain q.char := by
          rintro rfl
          exact closed ⟨[], body, rfl⟩
        refine .inr fun s hp => ?_
        rw [bodySource_cons] at hp
        have hnext : bodySource (l :: body) ++ s = q.char :: _ :=
          (List.cons.inj (Quoted.eq_of_isPrefixOf_pair hp)).2
        exact head?_bodySource_ne hl body s (by rw [hnext, List.head?_cons])
    · exact .inr fun s => not_pair_of_head? (head?_bodySource_ne hl body s)

/-- A string over several lines is cut behind its closing quotes. -/
theorem cutTripled_body (fits : ∀ l ∈ body, l.fits q = true)
    (closed : ¬List.replicate 3 (.plain q.char) <:+: body) (hr : ∀ c ∈ r.head?, c ≠ q.char) :
    cutTripled q.char (q.char == '"') false (bodySource body ++ (.replicate 3 q.char ++ r))
      = (bodySource body ++ .replicate 3 q.char, r) := by
  induction body with
  | nil => exact cutTripled_quotes (n := 0) (by decide) hr
  | cons l body ih =>
    obtain ⟨hfits, hrest⟩ := List.forall_mem_cons.1 fits
    have hcut := ih hrest fun h => closed (h.trans (List.suffix_cons l body).isInfix)
    rw [bodySource_cons, bodySource_cons]
    by_cases hl : l = .plain q.char
    · subst hl
      obtain ⟨n, hn, rfl⟩ | hpair := quotes_or_not_pair closed
      · -- the quotes at the end of the body run on into those that close it
        have hclose := cutTripled_quotes (n := n + 1) (by omega) hr
        rw [bodySource_replicate, ← List.append_assoc (List.replicate n _),
          List.replicate_append_replicate]
        exact hclose
      · have hopen := hpair (.replicate 3 q.char ++ r)
        show cutTripled q.char _ false (q.char :: (bodySource body ++ _)) = _
        rw [Quoted.cutTripled_quote q.char_ne.1 hopen, hcut]
        rfl
    · rw [cutTripled_letter hfits hl, hcut]

/-! ## Marking a lexeme -/

variable {a b : Lexeme}

/-- What comes behind a string on one line: where the string is empty, no further quote. -/
theorem mark_line (fits : ∀ l ∈ body, l.fits q = true)
    (closed : .plain q.char ∉ body ∧ .plain '\n' ∉ body)
    (hr : body = [] → ∀ c ∈ r.head?, c ≠ q.char) :
    mark (q.char :: (bodySource body ++ [q.char]) ++ r)
      = q.char :: (bodySource body ++ [q.char]) ++ mark r := by
  have hpair : ¬[q.char, q.char].isPrefixOf (bodySource body ++ q.char :: r) = true := by
    cases body with
    | nil =>
      intro hp
      have hnext : r = q.char :: _ := (List.cons.inj (Quoted.eq_of_isPrefixOf_pair hp)).2
      exact hr rfl q.char (by rw [hnext]; rfl) rfl
    | cons l body =>
      have hl : l ≠ .plain q.char := by
        rintro rfl
        exact closed.1 List.mem_cons_self
      exact not_pair_of_head? (head?_bodySource_ne hl body _)
  have hcut : cutString q.char (bodySource body ++ q.char :: r)
      = (bodySource body ++ [q.char], r) := by
    rw [Quoted.cutString_single hpair, cutQuoted_body fits closed]
  have hsource : q.char :: (bodySource body ++ [q.char]) ++ r
      = q.char :: (bodySource body ++ q.char :: r) := by simp
  rw [hsource, mark_quote q.char_eq, hcut]
  rfl

theorem mark_lines (fits : ∀ l ∈ body, l.fits q = true)
    (closed : ¬List.replicate 3 (.plain q.char) <:+: body) (hr : ∀ c ∈ r.head?, c ≠ q.char) :
    mark (.replicate 3 q.char ++ (bodySource body ++ .replicate 3 q.char) ++ r)
      = .replicate 3 q.char ++ (bodySource body ++ .replicate 3 q.char) ++ mark r := by
  have hsource : List.replicate 3 q.char ++ (bodySource body ++ .replicate 3 q.char) ++ r
      = q.char :: q.char :: q.char :: (bodySource body ++ (.replicate 3 q.char ++ r)) := by
    simp [List.replicate_succ]
  rw [hsource, mark_quote q.char_eq, Quoted.cutString_tripled (cutTripled_body fits closed hr)]
  rfl

theorem cutLine_comment {chars : List Char} (h : '\n' ∉ chars) (hr : ∀ c ∈ r.head?, c = '\n') :
    cutLine (chars ++ r) = (chars, r) := by
  induction chars with
  | nil =>
    cases r with
    | nil => rfl
    | cons c r => simp [cutLine, hr c rfl]
  | cons c chars ih =>
    simp only [List.mem_cons, not_or] at h
    rw [List.cons_append, cutLine, if_neg (Ne.symm h.1), ih h.2]
    rfl

/-- The letters of the string that is written for a float token. -/
def markedBody (token : List Char) : List Letter :=
  .escaped 'u' :: ("E000toml-float:".toList ++ token).map .plain

theorem bodySource_plain (chars : List Char) : bodySource (chars.map .plain) = chars := by
  induction chars with
  | nil => rfl
  | cons c chars ih => simpa [bodySource, Letter.source] using ih

/-- A marked float is a string that is copied, whatever stands behind it. -/
theorem mark_markedFloat {token : List Char} (h : isFloatToken token = true) (r : List Char) :
    mark ("\"\\uE000toml-float:".toList ++ token ++ ['"'] ++ r)
      = "\"\\uE000toml-float:".toList ++ token ++ ['"'] ++ mark r := by
  have hsource : "\"\\uE000toml-float:".toList ++ token ++ ['"']
      = Quote.double.char :: (bodySource (markedBody token) ++ [Quote.double.char]) := by
    have hbody : bodySource (markedBody token)
        = '\\' :: 'u' :: ("E000toml-float:".toList ++ token) :=
      congrArg ('\\' :: 'u' :: ·) (bodySource_plain _)
    rw [hbody]
    rfl
  have hletter : ∀ l ∈ markedBody token,
      l.fits .double = true ∧ l ≠ .plain '"' ∧ l ≠ .plain '\n' := by
    refine List.forall_mem_cons.2 ⟨by decide, fun l hl => ?_⟩
    obtain ⟨c, hc, rfl⟩ := List.mem_map.1 hl
    obtain ⟨hq, hb, hcontrol⟩ := Quoted.marked_text h c hc
    have hn : c ≠ '\n' := by
      rintro rfl
      cases hcontrol
    simp [Letter.fits, hq, hb, hn]
  rw [hsource]
  refine mark_line (fun l hl => (hletter l hl).1) ⟨fun hl => ?_, fun hl => ?_⟩
    (by simp [markedBody])
  · exact (hletter _ hl).2.1 rfl
  · exact (hletter _ hl).2.2 rfl

namespace Lexeme

/-- What may stand behind a lexeme so that it ends where it does. -/
def EndsBefore : Lexeme → List Char → Prop
  | comment .., r => ∀ c ∈ r.head?, c = '\n'
  | line q .., r => ∀ c ∈ r.head?, c ≠ q.char
  | lines q .., r => ∀ c ∈ r.head?, c ≠ q.char
  | separator .., _ => True
  | word .., r => ∀ c ∈ r.head?, isDelimiter c = true

/-- A lexeme is marked on its own. -/
theorem mark_append (h : a.EndsBefore r) : mark (a.source ++ r) = a.marked ++ mark r := by
  cases a with
  | comment chars oneLine =>
    show mark ('#' :: (chars ++ r)) = _
    rw [mark_comment, cutLine_comment oneLine h]
    rfl
  | line q body fits closed => exact mark_line fits closed fun _ => h
  | lines q body fits closed => exact mark_lines fits closed h
  | separator c separates =>
    obtain ⟨hn, hd, hs⟩ := ne_of_isSeparator separates
    exact mark_delimiter (isDelimiter_of_isSeparator separates) hn hd hs
  | word chars nonempty bare =>
    have hword := mark_word nonempty (fun c hc => isDelimiter_of_isWordChar (bare c hc)) h
    rw [source, hword, Piece.ofToken, marked]
    split <;> rfl

theorem endsBefore_nil (a : Lexeme) : a.EndsBefore [] := by
  cases a <;> simp [EndsBefore]

theorem marked_eq_source (h : a.isFloat = false) : a.marked = a.source := by
  cases a with
  | word chars _ _ =>
    have hfloat : isFloatToken chars = false := h
    simp [marked, source, hfloat]
  | _ => rfl

/-- The first character of a lexeme tells its kind. -/
theorem exists_source (a : Lexeme) : ∃ c s, a.source = c :: s ∧
    (a.isWord = false → isDelimiter c = true) ∧
    (a.isString = false → c ≠ '"' ∧ c ≠ '\'') := by
  cases a with
  | comment chars _ => exact ⟨'#', chars, rfl, fun _ => rfl, fun _ => by decide⟩
  | line q body _ _ => exact ⟨q.char, _, rfl, fun _ => by cases q <;> rfl, nofun⟩
  | lines q body _ _ => exact ⟨q.char, _, rfl, fun _ => by cases q <;> rfl, nofun⟩
  | separator c hc =>
    exact ⟨c, [], rfl, fun _ => isDelimiter_of_isSeparator hc, fun _ => (ne_of_isSeparator hc).2⟩
  | word chars nonempty bare =>
    obtain ⟨c, s, rfl⟩ := List.exists_cons_of_ne_nil nonempty
    have hc := isDelimiter_of_isWordChar (bare c List.mem_cons_self)
    exact ⟨c, s, rfl, nofun, fun _ => (not_delimiter_quote hc).2⟩

/-- What stands behind a lexeme lets it end. -/
theorem Before.endsBefore (h : Before a b) (s : List Char) : a.EndsBefore (b.source ++ s) := by
  obtain ⟨hcomment, hword, hstring⟩ := h
  obtain ⟨c, t, hc, hdelimiter, hquote⟩ := b.exists_source
  have hhead : ∀ x ∈ (b.source ++ s).head?, x = c := by simp [hc]
  have hne : a.isString = true → ∀ q : Quote, c ≠ q.char := by
    intro ha q
    obtain ⟨hd, hs⟩ := hquote (hstring ha).1
    cases q
    · exact hd
    · exact hs
  cases a with
  | comment =>
    intro x hx
    rw [hcomment rfl] at hx
    exact (Option.some.inj hx).symm
  | line q =>
    intro x hx
    rw [hhead x hx]
    exact hne rfl q
  | lines q =>
    intro x hx
    rw [hhead x hx]
    exact hne rfl q
  | separator => trivial
  | word =>
    intro x hx
    rw [hhead x hx]
    exact hdelimiter (hword rfl)

/-- A float token that is marked stands behind a separator only. -/
theorem Before.endsBefore_marked (h : Before a b) (s : List Char) :
    a.EndsBefore (b.marked ++ s) := by
  cases hb : b.isFloat with
  | false =>
    rw [marked_eq_source hb]
    exact h.endsBefore s
  | true =>
    have hword : b.isWord = true := by
      cases b with
      | word => rfl
      | _ => cases hb
    obtain ⟨hcomment, hwords, hstring⟩ := h
    cases a with
    | separator => trivial
    | comment =>
      cases b with
      | word chars nonempty bare =>
        obtain rfl : chars = ['\n'] := hcomment rfl
        exact absurd (bare '\n' List.mem_cons_self) (by decide)
      | _ => cases hb
    | line => exact absurd (hb.symm.trans (hstring rfl).2) (by decide)
    | lines => exact absurd (hb.symm.trans (hstring rfl).2) (by decide)
    | word => exact absurd (hword.symm.trans (hwords rfl)) (by decide)

/-- A marked lexeme is copied: a marked float is a string, and the others are as they were. -/
theorem mark_marked_append (h : a.isFloat = false → a.EndsBefore r) :
    mark (a.marked ++ r) = a.marked ++ mark r := by
  cases ha : a.isFloat with
  | false =>
    have hmark := mark_append (h ha)
    rwa [← marked_eq_source ha] at hmark
  | true =>
    cases a with
    | word token _ _ =>
      have htoken : isFloatToken token = true := ha
      simp only [marked, htoken, if_true]
      exact mark_markedFloat htoken r
    | _ => cases ha

end Lexeme

/-! ## Marking a text -/

variable {lexemes : List Lexeme}

theorem mark_flatMap_source (h : lexemes.IsChain Lexeme.Before) :
    mark (lexemes.flatMap Lexeme.source) = lexemes.flatMap Lexeme.marked := by
  induction h with
  | nil => exact mark_nil
  | singleton a =>
    have hend := a.mark_append (r := []) a.endsBefore_nil
    simpa [mark_nil] using hend
  | @cons_cons a b rest hab _ ih =>
    rw [List.flatMap_cons, List.flatMap_cons, List.flatMap_cons, Lexeme.mark_append
      (hab.endsBefore _), ← List.flatMap_cons, ih, List.flatMap_cons]

theorem mark_flatMap_marked (h : lexemes.IsChain Lexeme.Before) :
    mark (lexemes.flatMap Lexeme.marked) = lexemes.flatMap Lexeme.marked := by
  induction h with
  | nil => exact mark_nil
  | singleton a =>
    have hend := a.mark_marked_append (r := []) fun _ => a.endsBefore_nil
    simpa [mark_nil] using hend
  | @cons_cons a b rest hab _ ih =>
    rw [List.flatMap_cons, List.flatMap_cons, Lexeme.mark_marked_append fun _ =>
      hab.endsBefore_marked _, ← List.flatMap_cons, ih]

/-- **Marking keeps the lexemes.** Take any text that is written as a sequence of lexemes, none of
which runs together with the next one. Marking replaces each word that is a float token by the
string that begins with the marker and has the token behind it, and copies all other lexemes, every
string and comment among them; and a text that was marked is not changed by marking it again. -/
theorem mark_lexemes (lexemes : List Lexeme) (h : lexemes.IsChain Lexeme.Before) :
    mark (lexemes.flatMap Lexeme.source) = lexemes.flatMap Lexeme.marked ∧
    mark (mark (lexemes.flatMap Lexeme.source)) = mark (lexemes.flatMap Lexeme.source) := by
  rw [mark_flatMap_source h, mark_flatMap_marked h]
  exact ⟨rfl, rfl⟩

/-- A float token, a string with an escaped quote, a string over several lines that ends with five
quotes, an empty string and a comment, with float tokens in the strings and the comment. -/
def someLexemes : List Lexeme :=
  [.word ['a'] (by decide) (List.all_eq_true.1 rfl), .separator '=' (by decide),
   .separator '[' (by decide), .word ['1', '.', '5'] (by decide) (List.all_eq_true.1 rfl),
   .separator ',' (by decide),
   .line .double [.escaped '"', .plain ' ', .plain '2', .plain '.', .plain '5'] (by decide)
     (by decide),
   .separator ',' (by decide),
   .lines .single [.plain '\n', .plain '3', .plain '.', .plain '5', .plain '\'', .plain '\'']
     (by decide) (by decide),
   .separator ',' (by decide), .line .double [] (by decide) (by decide),
   .separator ']' (by decide), .comment ['"', ' ', '4', '.', '5'] (by decide),
   .separator '\n' (by decide)]

theorem mark_lexemes_someLexemes :
    someLexemes.IsChain Lexeme.Before ∧
    mark "a=[1.5,\"\\\" 2.5\",'''\n3.5''''',\"\"]#\" 4.5\n".toList
      = "a=[\"\\uE000toml-float:1.5\",\"\\\" 2.5\",'''\n3.5''''',\"\"]#\" 4.5\n".toList := by
  have hchain : someLexemes.IsChain Lexeme.Before := by decide
  have hmark := (mark_lexemes someLexemes hchain).1
  have hsource : someLexemes.flatMap Lexeme.source
      = "a=[1.5,\"\\\" 2.5\",'''\n3.5''''',\"\"]#\" 4.5\n".toList := rfl
  have hmarked : someLexemes.flatMap Lexeme.marked
      = "a=[\"\\uE000toml-float:1.5\",\"\\\" 2.5\",'''\n3.5''''',\"\"]#\" 4.5\n".toList :=
    rfl
  rw [hsource, hmarked] at hmark
  exact ⟨hchain, hmark⟩

end WakeConfig.Toml.FloatLiteral
