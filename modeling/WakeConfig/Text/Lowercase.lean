/-!
# Lowercase words

Case folding for comparing a text with an ASCII keyword. Of all characters outside ASCII only
two have a lowercase form with an ASCII letter in it, the Kelvin sign and the dotted capital I,
so folding these two and the ASCII capitals decides equality with an ASCII word exactly.
-/

namespace WakeConfig.Text

/-- The lowercase form of a character, as far as ASCII letters come into it. -/
def lowerChar (c : Char) : List Char :=
  if c.toNat = 0x212A then ['k']
  else if c.toNat = 0x130 then ['i', Char.ofNat 0x307]
  else [c.toLower]

/-- The lowercase form of a text, as far as ASCII letters come into it. -/
def lower (s : List Char) : List Char := s.flatMap lowerChar

@[simp] theorem lower_nil : lower [] = [] := rfl

@[simp] theorem lower_append (s t : List Char) : lower (s ++ t) = lower s ++ lower t := by
  simp [lower]

/-- Whether a text is the given lowercase word in any letter case. -/
def isWord (word : String) (s : String) : Bool := lower s.toList == word.toList

end WakeConfig.Text
