import WakeConfig.Proofs.Agreement

/-!
# Kinds of literals

The literals of the grammar that are no strings, as patterns: floats, integers in four bases, truth
values, dates and times. `token_kinds` says that the float tokens are the words of the first kind,
and that no word of another kind is one, nor a key under which the sections look.
-/

namespace WakeConfig.Toml

open FloatLiteral (isFloatToken)
open RegularExpression (char star)

/-! ## Patterns -/

namespace Pattern

/-- The digits above nine of the base sixteen, in both cases. -/
def hexLetters : List Char := ['a', 'b', 'c', 'd', 'e', 'f', 'A', 'B', 'C', 'D', 'E', 'F']

/-- Year, month and day. -/
def date : Pattern := digit ^ 4 * (char '-' * (digit ^ 2 * (char '-' * digit ^ 2)))

/-- Hour, minute and second, and perhaps a fraction of any length. -/
def time : Pattern :=
  digit ^ 2 * (char ':' * (digit ^ 2 * (char ':' * (digit ^ 2 *
    optional (char '.' * (digit * star digit))))))

/-- A date and a time. -/
def dateTime : Pattern := date * (oneOf ['T', 't', ' '] * time)

/-- How far the time of a place is ahead. -/
def offset : Pattern := oneOf ['Z', 'z'] + sign * (digit ^ 2 * (char ':' * digit ^ 2))

theorem of_mem_pow {cs w : List Char} {n : Nat} (h : w ∈ (oneOf cs ^ n).matches') :
    w.length = n ∧ ∀ c ∈ w, c ∈ cs := by
  rw [RegularExpression.matches'_pow, Language.mem_pow] at h
  obtain ⟨us, rfl, rfl, hus⟩ := h
  induction us with
  | nil => simp
  | cons u us ih =>
    obtain ⟨hu, hus'⟩ := List.forall_mem_cons.1 hus
    obtain ⟨c, hc, rfl⟩ := mem_oneOf.1 hu
    obtain ⟨hlength, hcs⟩ := ih hus'
    exact ⟨by simp [hlength], List.forall_mem_cons.2 ⟨hc, hcs⟩⟩

end Pattern

/-! ## Kinds -/

open Pattern

/-- The kinds of literals that are no strings. -/
inductive LiteralKind where
  | float
  | decimal
  | hexadecimal
  | octal
  | binary
  | boolean
  | offsetDateTime
  | localDateTime
  | localDate
  | localTime
  deriving Repr, DecidableEq

/-- The literals of a kind. Zeros may lead a number, and a date or a time need not exist. -/
def LiteralKind.pattern : LiteralKind → Pattern
  | float => Pattern.float
  | decimal => optional sign * run digit
  | hexadecimal => word ['0', 'x'] * run (oneOf (digits 10 ++ hexLetters))
  | octal => word ['0', 'o'] * run (oneOf (digits 8))
  | binary => word ['0', 'b'] * run (oneOf (digits 2))
  | boolean => word ['t', 'r', 'u', 'e'] + word ['f', 'a', 'l', 's', 'e']
  | offsetDateTime => dateTime * offset
  | localDateTime => dateTime
  | localDate => date
  | localTime => time

section Literals

variable {w u : List Char}

theorem isFloatToken_decimal (h : w ∈ LiteralKind.decimal.pattern.matches') :
    isFloatToken w = false := by
  cases hw : isFloatToken w with
  | false => rfl
  | true =>
    -- a float has one of four characters, and the pattern has none of them
    obtain ⟨c, hc, hx⟩ := FloatLiteral.exists_mem_of_isFloatToken hw
    have hletter := mem_letters _ h hc
    rcases hx with rfl | rfl | rfl | rfl <;> exact absurd hletter (by decide)

/-- What starts with the zero and the letter of a base is no float. -/
theorem isFloatToken_prefixed {x : Char} {q : Pattern} (hx : x = 'x' ∨ x = 'o' ∨ x = 'b')
    (h : w ∈ (word ['0', x] * q).matches') : isFloatToken w = false := by
  obtain ⟨u, hu, v, -, rfl⟩ := mem_mul.1 h
  obtain rfl := mem_word.1 hu
  exact isFloatToken_based hx v

theorem isFloatToken_boolean (h : w ∈ LiteralKind.boolean.pattern.matches') :
    isFloatToken w = false := by
  rcases mem_add.1 h with h | h <;> obtain rfl := mem_word.1 h <;> rfl

/-- Digits with a hyphen or a colon behind them start no float. -/
theorem isFloatToken_grouped {n : Nat} {x : Char} {q : Pattern} (hn : 0 < n)
    (hx : x = '-' ∨ x = ':') (h : u ∈ (digit ^ n * (char x * q)).matches') (v : List Char) :
    isFloatToken (u ++ v) = false := by
  obtain ⟨ds, hds, y, hy, rfl⟩ := mem_mul.1 h
  obtain ⟨z, hz, r, -, rfl⟩ := mem_mul.1 hy
  obtain rfl := mem_char.1 hz
  obtain ⟨rfl, hdigits⟩ := of_mem_pow hds
  have hdated := DateTime.isFloatToken_dated (fun c hc => isDigit_iff_mem.2 (hdigits c hc))
    (List.length_pos_iff.1 hn) hx (r ++ v)
  simpa using hdated

theorem isFloatToken_date (h : u ∈ date.matches') (v : List Char) :
    isFloatToken (u ++ v) = false :=
  isFloatToken_grouped (by decide) (.inl rfl) h v

theorem isFloatToken_dateTime (h : u ∈ dateTime.matches') (v : List Char) :
    isFloatToken (u ++ v) = false := by
  obtain ⟨d, hd, r, -, rfl⟩ := mem_mul.1 h
  rw [List.append_assoc]
  exact isFloatToken_date hd (r ++ v)

/-- The literals of the other kinds are no floats. -/
theorem isFloatToken_of_ne_float {kind : LiteralKind} (hkind : kind ≠ .float)
    (h : w ∈ kind.pattern.matches') : isFloatToken w = false := by
  cases kind with
  | float => exact absurd rfl hkind
  | decimal => exact isFloatToken_decimal h
  | hexadecimal => exact isFloatToken_prefixed (.inl rfl) h
  | octal => exact isFloatToken_prefixed (.inr (.inl rfl)) h
  | binary => exact isFloatToken_prefixed (.inr (.inr rfl)) h
  | boolean => exact isFloatToken_boolean h
  | offsetDateTime =>
    obtain ⟨u, hu, v, -, rfl⟩ := mem_mul.1 h
    exact isFloatToken_dateTime hu v
  | localDateTime => simpa using isFloatToken_dateTime h []
  | localDate => simpa using isFloatToken_date h []
  | localTime => simpa using isFloatToken_grouped (by decide) (.inr rfl) h []

end Literals

/-! ## Keys -/

theorem isFloatToken_of_not_mayChange {key : String} (h : mayChange key = false) :
    isFloatToken key.toList = false := by
  simp only [mayChange, FloatLiteral.isNumeral, Bool.or_eq_false_iff] at h
  exact h.2.1

/-- A table without the entries whose keys are float tokens, at every depth. -/
def Table.withoutFloatKeys (t : Table) : Table :=
  viewEntries (fun key => !isFloatToken key.toList) false t

theorem Table.shown_withoutFloatKeys (t : Table) : t.withoutFloatKeys.shown = t.shown := by
  have hkeep : ∀ key, (!isFloatToken key.toList && !mayChange key) = !mayChange key := by
    intro key
    cases h : mayChange key with
    | true => rw [Bool.not_true, Bool.and_false]
    | false =>
      rw [isFloatToken_of_not_mayChange h]
      rfl
  unfold Table.withoutFloatKeys Table.shown
  rw [viewEntries_view]
  simp only [hkeep, Bool.or_self]

/-- What is under a float token is not looked at when a tree is built. -/
theorem build_withoutFloatKeys (platform : Platform) (resolver : HostResolver) (t : Table) :
    FromToml.build platform resolver t.withoutFloatKeys = FromToml.build platform resolver t := by
  rw [← FromToml.build_shown, Table.shown_withoutFloatKeys, FromToml.build_shown]

/-! ## All tokens -/

/-- **Float tokens are the floats.** A token is a float token if and only if it is a word of the
pattern of floats, of whatever length. No literal of another kind is one, and none of the keys that
lead to the sections and the settings. Nor does any other float token matter as a key: without the
entries under float tokens, at every depth, the same tree or error is built of a table. -/
theorem token_kinds :
    (∀ w, isFloatToken w = true ↔ w ∈ LiteralKind.float.pattern.matches') ∧
    (∀ kind : LiteralKind, kind ≠ .float → ∀ w ∈ kind.pattern.matches', isFloatToken w = false) ∧
    (∀ path ∈ Layout.sections, ∀ key ∈ path, isFloatToken key.toList = false) ∧
    (∀ (s : Setting) (t : Table), ∀ key ∈ s.keysIn t, isFloatToken key.toList = false) ∧
    ∀ (platform : Platform) (resolver : HostResolver) (t : Table),
      FromToml.build platform resolver t.withoutFloatKeys = FromToml.build platform resolver t := by
  refine ⟨fun w => FloatLiteral.isFloatToken_iff, fun kind hkind w hw =>
    isFloatToken_of_ne_float hkind hw, fun path hpath key hkey => ?_, fun s t key hkey => ?_,
    build_withoutFloatKeys⟩
  · exact isFloatToken_of_not_mayChange (Layout.sections_known path hpath key hkey)
  · exact isFloatToken_of_not_mayChange ((s.keysIn_known t).2 key hkey)

theorem token_kinds_someWords :
    ("-1_0.5e+3_1".toList ∈ LiteralKind.float.pattern.matches' ∧
      isFloatToken "-1_0.5e+3_1".toList = true) ∧
    ("0xDEAD_1e5".toList ∈ LiteralKind.hexadecimal.pattern.matches' ∧
      isFloatToken "0xDEAD_1e5".toList = false) ∧
    ("1979-05-27T07:32:00.999999Z".toList ∈ LiteralKind.offsetDateTime.pattern.matches' ∧
      isFloatToken "1979-05-27T07:32:00.999999Z".toList = false) ∧
    (["join", "lobby"] ∈ Layout.sections ∧ isFloatToken "lobby".toList = false) ∧
    ("minimum_online_time" ∈ Setting.minOnlineTime.keysIn [] ∧
      isFloatToken "minimum_online_time".toList = false) := by
  obtain ⟨hfloat, hother, hsection, hsetting, -⟩ := token_kinds
  have hnumber : "-1_0.5e+3_1".toList ∈ LiteralKind.float.pattern.matches' := by decide
  have hhex : "0xDEAD_1e5".toList ∈ LiteralKind.hexadecimal.pattern.matches' := by decide
  have hdate : "1979-05-27T07:32:00.999999Z".toList
      ∈ LiteralKind.offsetDateTime.pattern.matches' := by decide
  have hlobby : ["join", "lobby"] ∈ Layout.sections := by decide
  have honline : "minimum_online_time" ∈ Setting.minOnlineTime.keysIn [] := by decide
  exact ⟨⟨hnumber, (hfloat _).2 hnumber⟩, ⟨hhex, hother _ (by decide) _ hhex⟩,
    ⟨hdate, hother _ (by decide) _ hdate⟩, ⟨hlobby, hsection _ hlobby _ (by decide)⟩,
    ⟨honline, hsetting _ _ _ honline⟩⟩

end WakeConfig.Toml
