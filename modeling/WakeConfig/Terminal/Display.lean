import WakeConfig.Environment.Basic

/-!
# The display

What a terminal can show, and styled text for it. A style is a code before the text and another
behind it, each an escape character, a bracket, numbers with semicolons and an `m`. Stripping
removes every complete code and nothing else.
-/

namespace WakeConfig

/-- What a terminal can show. -/
structure Display where
  colors : Bool
  unicode : Bool
  deriving Repr, DecidableEq, Inhabited

/-- A style of text. -/
inductive TextStyle where
  | bold
  | dim
  | red
  | green
  | yellow
  deriving Repr, DecidableEq

namespace Display

/-! ## Codes -/

/-- The character that starts a code. -/
def escape : Char := '\x1b'

/-- The code of the given numbers. -/
def codeOf (numbers : List Char) : List Char := escape :: '[' :: (numbers ++ ['m'])

/-- The number of a style. -/
def styleNumber : TextStyle → List Char
  | .bold => ['1']
  | .dim => ['2']
  | .red => ['3', '1']
  | .green => ['3', '2']
  | .yellow => ['3', '3']

/-- The number that ends all styles. -/
def plainNumber : List Char := ['0']

/-- Whether a character may stand between the bracket and the `m` of a code. -/
def isParameter (c : Char) : Bool := ('0' ≤ c && c ≤ '9') || c == ';'

/-- Strips a text behind `held`, the start of a code that is not complete, last character first. -/
def stripFrom : List Char → List Char → List Char
  | held, [] => held.reverse
  | held, c :: rest =>
    if c = escape then held.reverse ++ stripFrom [escape] rest
    else if held = [] then c :: stripFrom [] rest
    else if held = [escape] then
      if c = '[' then stripFrom ['[', escape] rest else escape :: c :: stripFrom [] rest
    else if isParameter c then stripFrom (c :: held) rest
    else if c = 'm' then stripFrom [] rest
    else held.reverse ++ c :: stripFrom [] rest

/-- Strips the codes of a text. -/
def stripCodes (s : List Char) : List Char := stripFrom [] s

/-- Strips the codes of a string. -/
def strip (s : String) : String := String.ofList (stripCodes s.toList)

/-! ## Text for a display -/

/-- A text in a style, where there are colors. -/
def styled (d : Display) (style : TextStyle) (text : String) : String :=
  if d.colors then
    String.ofList (codeOf (styleNumber style)) ++ text ++ String.ofList (codeOf plainNumber)
  else text

/-- A symbol, or its plain form. -/
def symbol (d : Display) (unicode ascii : String) : String := if d.unicode then unicode else ascii

/-- The display of a terminal or of something else, as the environment describes it: colors can be
refused, and a dumb terminal has plain symbols. -/
def detect (e : Environment) (isTerminal : Bool) : Display where
  colors := isTerminal && (e.get? "NO_COLOR").getD "" == ""
  unicode := e.get? "TERM" != some "dumb"

/-- A text without an escape character has no code. -/
theorem stripCodes_of_plain {s : List Char} (h : escape ∉ s) : stripCodes s = s := by
  induction s with
  | nil => rfl
  | cons c rest ih =>
    simp only [List.mem_cons, not_or] at h
    have hc : c ≠ escape := fun hc => h.1 hc.symm
    unfold stripCodes at ih ⊢
    simp [stripFrom, hc, ih h.2]

end Display

end WakeConfig
