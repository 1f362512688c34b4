/-!
# Backslash escapes

Variables of the environment cannot hold a line break conveniently, so a backslash followed by
`n`, `r`, `t` or another backslash stands for a control character or a backslash. The four
replacements are made one after the other over the whole text, the double backslash last: a
double backslash before `n` is a backslash and a line break. Other sequences stay as they are.
-/

namespace WakeConfig.Text

/-- Replaces each `a` followed by `b`, found from the left without overlap, by `r`. -/
def replacePair (a b r : Char) : List Char → List Char
  | [] => []
  | [x] => [x]
  | x :: y :: rest =>
    if x = a ∧ y = b then r :: replacePair a b r rest else x :: replacePair a b r (y :: rest)

/-- Decodes the four escapes of a text. -/
def decodeEscapes (s : List Char) : List Char :=
  let lineFeeds := replacePair '\\' 'n' '\n' s
  let returns := replacePair '\\' 'r' '\r' lineFeeds
  let tabs := replacePair '\\' 't' '\t' returns
  replacePair '\\' '\\' '\\' tabs

/-- Decodes the four escapes of a string. -/
def unescape (s : String) : String := String.ofList (decodeEscapes s.toList)

/-- A text without the first character of a pair is left alone. -/
theorem replacePair_of_not_mem {a b r : Char} {s : List Char} (h : a ∉ s) :
    replacePair a b r s = s := by
  fun_induction replacePair a b r s with
  | case1 => rfl
  | case2 x => rfl
  | case3 x y rest hp ih => simp_all
  | case4 x y rest hp ih => simp_all

/-- A text without a backslash decodes to itself. -/
theorem decodeEscapes_of_not_mem {s : List Char} (h : '\\' ∉ s) : decodeEscapes s = s := by
  simp [decodeEscapes, replacePair_of_not_mem h]

end WakeConfig.Text
