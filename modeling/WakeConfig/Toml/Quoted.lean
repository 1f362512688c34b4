/-!
# Quoted TOML strings

The four string forms, read from after the opening quote. A reader gives the text and what
follows the closing quote, or nothing if the string is not well formed. Both single-line forms
also serve as keys.
-/

namespace WakeConfig.Toml

/-- A reader's answer: what was read and the rest of the input. -/
abbrev Read (α : Type) := Option (α × List Char)

namespace Quoted

/-! ## Characters -/

/-- Whether a character may not stand in a single-line string as it is. -/
def isControl (c : Char) : Bool := c.toNat == 0x7F || (c.toNat < 0x20 && c != '\t')

/-- Whether a character may not stand in a multi-line string as it is. -/
def isMultiControl (c : Char) : Bool := isControl c && c != '\n' && c != '\r'

/-- Whether a character is a space or a tab. -/
def isSpace (c : Char) : Bool := c == ' ' || c == '\t'

/-- Whether a character is a line feed or a carriage return. -/
def isNewline (c : Char) : Bool := c == '\n' || c == '\r'

/-- The character that a letter stands for after a backslash. -/
def simpleEscape? (c : Char) : Option Char :=
  if c = 'b' then some (Char.ofNat 0x08)
  else if c = 't' then some '\t'
  else if c = 'n' then some '\n'
  else if c = 'f' then some (Char.ofNat 0x0C)
  else if c = 'r' then some '\r'
  else if c = '"' then some '"'
  else if c = '\\' then some '\\'
  else none

/-- The value of a hexadecimal digit. -/
def hexValue? (c : Char) : Option Nat :=
  if '0' ≤ c ∧ c ≤ '9' then some (c.toNat - 48)
  else if 'a' ≤ c ∧ c ≤ 'f' then some (c.toNat - 87)
  else if 'A' ≤ c ∧ c ≤ 'F' then some (c.toNat - 55)
  else none

/-- The character of a code; surrogates and numbers above U+10FFFF are none. -/
def scalar? (n : Nat) : Option Char := if n.isValidChar then some (Char.ofNat n) else none

/-- Adds a character in front of what was read. -/
def push (c : Char) : Read (List Char) → Read (List Char) :=
  Option.map fun (text, rest) => (c :: text, rest)

/-! ## Places

A string with escapes is read character by character; the place tells what the next one means.
-/

/-- Where a string with escapes is: in its text, behind a backslash, in a code of which a number of
digits is still to come, behind a backslash and spaces that a line break must follow, or behind
such a line break, where blank characters are dropped. -/
inductive Place where
  | text
  | escape
  | code (lacking value : Nat)
  | gap
  | trim
  deriving Repr, DecidableEq

/-- Reads on behind a digit of a code: one more digit is missing than `lacking` says. -/
def afterHex (continueAt : Place → Read (List Char)) (c : Char) (lacking value : Nat) :
    Read (List Char) :=
  match hexValue? c with
  | none => none
  | some d =>
    if lacking = 0 then
      match scalar? (value * 16 + d) with
      | none => none
      | some x => push x (continueAt .text)
    else continueAt (.code (lacking - 1) (value * 16 + d))

/-- Reads on behind the character that follows a backslash. -/
def afterBackslash (continueAt : Place → Read (List Char)) (c : Char) : Read (List Char) :=
  if c = 'u' then continueAt (.code 3 0)
  else if c = 'U' then continueAt (.code 7 0)
  else
    match simpleEscape? c with
    | none => none
    | some x => push x (continueAt .text)

/-! ## Single-line forms -/

/-- Reads a basic string on one line. -/
def basicAt : Place → List Char → Read (List Char)
  | _, [] => none
  | .escape, c :: rest => afterBackslash (basicAt · rest) c
  | .code lacking value, c :: rest => afterHex (basicAt · rest) c lacking value
  | _, c :: rest =>
    if c = '"' then some ([], rest)
    else if c = '\\' then basicAt .escape rest
    else if isControl c then none
    else push c (basicAt .text rest)

/-- Reads a basic string on one line. -/
def basic (s : List Char) : Read (List Char) := basicAt .text s

/-- Reads a literal string on one line. -/
def literal : List Char → Read (List Char)
  | [] => none
  | c :: rest =>
    if c = '\'' then some ([], rest)
    else if isControl c then none
    else push c (literal rest)

/-! ## Multi-line forms -/

/-- Reads a multi-line basic string; it ends at the first three quotes. -/
def multiBasicAt : Place → List Char → Read (List Char)
  | _, [] => none
  | .escape, c :: rest =>
    if isNewline c then multiBasicAt .trim rest
    else if isSpace c then multiBasicAt .gap rest
    else afterBackslash (multiBasicAt · rest) c
  | .code lacking value, c :: rest => afterHex (multiBasicAt · rest) c lacking value
  | .gap, c :: rest =>
    if isSpace c then multiBasicAt .gap rest
    else if isNewline c then multiBasicAt .trim rest
    else none
  | place, c :: rest =>
    if place = .trim ∧ (isSpace c ∨ isNewline c) then multiBasicAt .trim rest
    else if c = '"' ∧ ['"', '"'].isPrefixOf rest then some ([], rest.drop 2)
    else if c = '\\' then multiBasicAt .escape rest
    else if isMultiControl c then none
    else push c (multiBasicAt .text rest)

/-- Reads a multi-line basic string. -/
def multiBasic (s : List Char) : Read (List Char) := multiBasicAt .text s

/-- Reads a multi-line literal string; it ends at the first three quotes. -/
def multiLiteral : List Char → Read (List Char)
  | [] => none
  | c :: rest =>
    if c = '\'' ∧ ['\'', '\''].isPrefixOf rest then some ([], rest.drop 2)
    else if isMultiControl c then none
    else push c (multiLiteral rest)

/-- Drops the line break behind the opening quotes of a multi-line string. -/
def dropOpening (s : List Char) : List Char :=
  match s.dropWhile (· == '\r') with
  | '\n' :: rest => rest
  | rest => rest

/-! ## Values and keys -/

/-- Reads a string value in double quotes. -/
def double : List Char → Read (List Char)
  | '"' :: '"' :: rest => multiBasic (dropOpening rest)
  | s => basic s

/-- Reads a string value in single quotes. -/
def single : List Char → Read (List Char)
  | '\'' :: '\'' :: rest => multiLiteral (dropOpening rest)
  | s => literal s

end Quoted

end WakeConfig.Toml
