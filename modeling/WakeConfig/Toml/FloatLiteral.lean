import WakeConfig.Text.Blank
import WakeConfig.Text.Digits

/-!
# Float literals

A reader that keeps only the value of a number cannot tell `60.0` from `60`. So before a document
is read for its fields, every bare float token in it is replaced by a string that starts with
`marker`; strings and comments are left as they are. `pieces` cuts a text into consecutive pieces,
and `mark` writes them back with the float tokens replaced.
-/

namespace WakeConfig.Toml.FloatLiteral

open Text (isDigit)

/-- The start of the string that a float token becomes. It begins with a private-use character. -/
def marker : String := "\uE000toml-float:"

/-- Whether a string stands for a float token. -/
def isMarked (s : String) : Bool := marker.toList.isPrefixOf s.toList

/-! ## Tokens -/

/-- Drops digits, and underscores that a digit follows. -/
def dropDigits : List Char → List Char
  | [] => []
  | '_' :: d :: rest => if isDigit d then dropDigits rest else '_' :: d :: rest
  | c :: rest => if isDigit c then dropDigits rest else c :: rest

/-- Drops a run of digits with single underscores between them, which must not be empty. -/
def dropRun? : List Char → Option (List Char)
  | [] => none
  | c :: rest => if isDigit c then some (dropDigits rest) else none

/-- Drops a sign. -/
def dropSign : List Char → List Char
  | '+' :: rest => rest
  | '-' :: rest => rest
  | s => s

/-- Whether a text is an exponent behind its letter. -/
def isExponent (s : List Char) : Bool := dropRun? (dropSign s) == some []

/-- Whether a text is an exponent with its letter. -/
def isExponentPart : List Char → Bool
  | 'e' :: rest => isExponent rest
  | 'E' :: rest => isExponent rest
  | _ => false

/-- Whether a text is a fraction, an exponent or both. -/
def isFloatTail : List Char → Bool
  | '.' :: rest =>
    match dropRun? rest with
    | none => false
    | some [] => true
    | some rest => isExponentPart rest
  | s => isExponentPart s

/-- Whether a token is an infinity or NaN. -/
def isSpecial (token : List Char) : Bool :=
  dropSign token == ['i', 'n', 'f'] || dropSign token == ['n', 'a', 'n']

/-- Whether a token is a float: a special value, or digits with a fraction, an exponent or both. -/
def isFloatToken (token : List Char) : Bool :=
  isSpecial token ||
    match dropRun? (dropSign token) with
    | none => false
    | some rest => isFloatTail rest

/-! ## Pieces -/

/-- Whether a character ends a bare token. -/
def isDelimiter (c : Char) : Bool :=
  Text.isBlank c || c == '=' || c == ',' || c == '[' || c == ']' || c == '\x7b' || c == '\x7d'
    || c == '#' || c == '"' || c == '\''

/-- A piece of a text: copied as it is, or a float token. -/
inductive Piece where
  | verbatim (chars : List Char)
  | float (token : List Char)
  deriving Repr, DecidableEq

/-- The characters of a piece. -/
def Piece.source : Piece → List Char
  | verbatim chars => chars
  | float token => token

/-- The characters that are written for a piece: a float token as a string with the marker
escaped. -/
def Piece.marked : Piece → List Char
  | verbatim chars => chars
  | float token => "\"\\uE000toml-float:".toList ++ token ++ ['"']

/-- A bare token as a piece. -/
def Piece.ofToken (token : List Char) : Piece :=
  if isFloatToken token then .float token else .verbatim token

/-- Puts a character in front of the first of two parts. -/
def grow (c : Char) (parts : List Char × List Char) : List Char × List Char :=
  (c :: parts.1, parts.2)

/-- Cuts behind the closing quote of a string on one line, or before the end of the line. Where
`escapes` holds, a backslash takes the next character with it; `taken` tells that one did. -/
def cutQuoted (quote : Char) (escapes taken : Bool) : List Char → List Char × List Char
  | [] => ([], [])
  | c :: rest =>
    if taken then grow c (cutQuoted quote escapes false rest)
    else if c = '\n' then ([], c :: rest)
    else if escapes ∧ c = '\\' then grow c (cutQuoted quote escapes true rest)
    else if c = quote then ([c], rest)
    else grow c (cutQuoted quote escapes false rest)

/-- Cuts behind up to `n` quotes. -/
def cutQuotes (quote : Char) : Nat → List Char → List Char × List Char
  | n + 1, c :: rest => if c = quote then grow c (cutQuotes quote n rest) else ([], c :: rest)
  | _, s => ([], s)

/-- Cuts behind the closing three quotes of a multi-line string and up to two more. -/
def cutTripled (quote : Char) (escapes taken : Bool) : List Char → List Char × List Char
  | [] => ([], [])
  | c :: rest =>
    if taken then grow c (cutTripled quote escapes false rest)
    else if escapes ∧ c = '\\' then grow c (cutTripled quote escapes true rest)
    else if [quote, quote, quote].isPrefixOf (c :: rest) then cutQuotes quote 5 (c :: rest)
    else grow c (cutTripled quote escapes false rest)

/-- Cuts behind the string that a quote opens. -/
def cutString (quote : Char) (s : List Char) : List Char × List Char :=
  if [quote, quote].isPrefixOf s then
    (fun parts => (quote :: quote :: parts.1, parts.2))
      (cutTripled quote (quote == '"') false (s.drop 2))
  else cutQuoted quote (quote == '"') false s

/-- Cuts behind the rest of a bare token. -/
def cutToken : List Char → List Char × List Char
  | [] => ([], [])
  | c :: rest => if isDelimiter c then ([], c :: rest) else grow c (cutToken rest)

/-- Cuts before the end of a line. -/
def cutLine : List Char → List Char × List Char
  | [] => ([], [])
  | c :: rest => if c = '\n' then ([], c :: rest) else grow c (cutLine rest)

/-- The piece that starts with a character, and what follows it. -/
def firstPiece (c : Char) (s : List Char) : Piece × List Char :=
  if c = '#' then (.verbatim (c :: (cutLine s).1), (cutLine s).2)
  else if c = '"' ∨ c = '\'' then (.verbatim (c :: (cutString c s).1), (cutString c s).2)
  else if isDelimiter c then (.verbatim [c], s)
  else (.ofToken (c :: (cutToken s).1), (cutToken s).2)

/-! ## Cutting loses nothing -/

theorem cutQuoted_append (quote : Char) (escapes taken : Bool) (s : List Char) :
    (cutQuoted quote escapes taken s).1 ++ (cutQuoted quote escapes taken s).2 = s := by
  fun_induction cutQuoted quote escapes taken s <;> simp_all [grow]

theorem cutQuotes_append (quote : Char) (n : Nat) (s : List Char) :
    (cutQuotes quote n s).1 ++ (cutQuotes quote n s).2 = s := by
  fun_induction cutQuotes quote n s <;> simp_all [grow]

theorem cutTripled_append (quote : Char) (escapes taken : Bool) (s : List Char) :
    (cutTripled quote escapes taken s).1 ++ (cutTripled quote escapes taken s).2 = s := by
  fun_induction cutTripled quote escapes taken s <;> simp_all [grow, cutQuotes_append]

theorem cutString_append (quote : Char) (s : List Char) :
    (cutString quote s).1 ++ (cutString quote s).2 = s := by
  unfold cutString
  split
  · rename_i h
    obtain ⟨t, rfl⟩ := List.isPrefixOf_iff_prefix.1 h
    simp [cutTripled_append]
  · exact cutQuoted_append _ _ _ _

theorem cutToken_append (s : List Char) : (cutToken s).1 ++ (cutToken s).2 = s := by
  fun_induction cutToken s <;> simp_all [grow]

theorem cutLine_append (s : List Char) : (cutLine s).1 ++ (cutLine s).2 = s := by
  fun_induction cutLine s <;> simp_all [grow]

@[simp] theorem Piece.source_ofToken (token : List Char) :
    (Piece.ofToken token).source = token := by
  unfold Piece.ofToken
  split <;> rfl

/-- The first piece and what follows it are the text. -/
theorem firstPiece_append (c : Char) (s : List Char) :
    (firstPiece c s).1.source ++ (firstPiece c s).2 = c :: s := by
  unfold firstPiece
  split
  · simp [Piece.source, cutLine_append]
  · split
    · simp [Piece.source, cutString_append]
    · split
      · simp [Piece.source]
      · simp [cutToken_append]

/-- The first piece is not empty. -/
theorem length_source_firstPiece (c : Char) (s : List Char) :
    0 < (firstPiece c s).1.source.length := by
  unfold firstPiece
  split
  · simp [Piece.source]
  · split
    · simp [Piece.source]
    · split <;> simp [Piece.source_ofToken]
      simp [Piece.source]

/-- What follows the first piece is shorter than the text. -/
theorem length_firstPiece_lt (c : Char) (s : List Char) :
    (firstPiece c s).2.length < (c :: s).length := by
  have h := congrArg List.length (firstPiece_append c s)
  have := length_source_firstPiece c s
  simp only [List.length_append] at h
  omega

/-! ## Marking -/

/-- Cuts a text into its pieces. -/
def pieces : List Char → List Piece
  | [] => []
  | c :: s => (firstPiece c s).1 :: pieces (firstPiece c s).2
termination_by s => s.length
decreasing_by exact length_firstPiece_lt c s

/-- Replaces the float tokens of a text. -/
def mark (s : List Char) : List Char := (pieces s).flatMap Piece.marked

/-- The pieces of a text are the text. -/
theorem flatMap_source_pieces (s : List Char) : (pieces s).flatMap Piece.source = s := by
  induction s using pieces.induct with
  | case1 => simp [pieces]
  | case2 c s ih => rw [pieces, List.flatMap_cons, ih, firstPiece_append]

end WakeConfig.Toml.FloatLiteral
