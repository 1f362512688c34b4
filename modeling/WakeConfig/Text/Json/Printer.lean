import WakeConfig.Text.Json.Basic

/-!
# JSON text

Two written forms of a JSON value: the compact one without any space, and the indented one with
two spaces a level, in which an empty object or array stays on its line. In a string only the
quote, the backslash and the characters below U+0020 are escaped.
-/

namespace WakeConfig.Json

/-! ## Scalars -/

/-- The lowercase hexadecimal digit of a number below sixteen. -/
def hexDigit (n : Nat) : Char := Nat.digitChar n

/-- The written form of one character inside a string. -/
def escapeChar (c : Char) : List Char :=
  if c = '"' then ['\\', '"']
  else if c = '\\' then ['\\', '\\']
  else if c = '\n' then ['\\', 'n']
  else if c = '\r' then ['\\', 'r']
  else if c = '\t' then ['\\', 't']
  else if c.toNat = 0x08 then ['\\', 'b']
  else if c.toNat = 0x0C then ['\\', 'f']
  else if c.toNat < 0x20 then
    ['\\', 'u', '0', '0', hexDigit (c.toNat / 16), hexDigit (c.toNat % 16)]
  else [c]

/-- A string in its quotes. -/
def quote (s : List Char) : List Char := '"' :: (s.flatMap escapeChar ++ ['"'])

/-- A truth value. -/
def boolChars (b : Bool) : List Char := (if b then "true" else "false").toList

/-! ## Compact form -/

mutual
/-- The form without spaces. -/
def compact : Json → List Char
  | null => "null".toList
  | bool b => boolChars b
  | number d => d.chars
  | string t => quote t.toList
  | array items => '[' :: (compactItems items ++ [']'])
  | object members => '\x7b' :: (compactMembers members ++ ['\x7d'])

/-- The items of an array with commas between them. -/
def compactItems : List Json → List Char
  | [] => []
  | [item] => compact item
  | item :: rest => compact item ++ ',' :: compactItems rest

/-- The members of an object with commas between them. -/
def compactMembers : List (String × Json) → List Char
  | [] => []
  | [(name, value)] => quote name.toList ++ ':' :: compact value
  | (name, value) :: rest =>
    quote name.toList ++ ':' :: (compact value ++ ',' :: compactMembers rest)
end

/-! ## Indented form -/

/-- A line break and the spaces of a level. -/
def lineBreak (level : Nat) : List Char := '\n' :: List.replicate (2 * level) ' '

mutual
/-- The form with two spaces a level, for a value that stands at the given level. -/
def indentedAt (level : Nat) : Json → List Char
  | null => "null".toList
  | bool b => boolChars b
  | number d => d.chars
  | string t => quote t.toList
  | array [] => ['[', ']']
  | array (item :: items) =>
    '[' :: (indentedItems (level + 1) (item :: items) ++ lineBreak level ++ [']'])
  | object [] => ['\x7b', '\x7d']
  | object (member :: members) =>
    '\x7b' :: (indentedMembers (level + 1) (member :: members) ++ lineBreak level ++ ['\x7d'])

/-- The items of an array, each on a line of its own. -/
def indentedItems (level : Nat) : List Json → List Char
  | [] => []
  | [item] => lineBreak level ++ indentedAt level item
  | item :: rest => lineBreak level ++ indentedAt level item ++ ',' :: indentedItems level rest

/-- The members of an object, each on a line of its own. -/
def indentedMembers (level : Nat) : List (String × Json) → List Char
  | [] => []
  | [(name, value)] => lineBreak level ++ quote name.toList ++ ':' :: ' ' :: indentedAt level value
  | (name, value) :: rest =>
    lineBreak level ++ quote name.toList ++ ':' :: ' ' :: indentedAt level value
      ++ ',' :: indentedMembers level rest
end

/-- The form with two spaces a level. -/
def indented (v : Json) : List Char := indentedAt 0 v

end WakeConfig.Json
