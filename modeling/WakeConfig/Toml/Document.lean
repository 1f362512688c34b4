import WakeConfig.Toml.DateTime

/-!
# TOML documents

A document is a sequence of headers and assignments, one a line. It is read into one table; the
text is refused as a whole if any part of it is not well formed or writes a key twice. `read?` is
the reader.
-/

namespace WakeConfig.Toml

/-! ## Keys -/

/-- Whether a character may stand in a key without quotes. -/
def isBareKeyChar (c : Char) : Bool :=
  ('A' ≤ c && c ≤ 'Z') || ('a' ≤ c && c ≤ 'z') || ('0' ≤ c && c ≤ '9') || c == '_' || c == '-'

/-- Drops spaces and tabs. -/
def dropSpaces (s : List Char) : List Char := s.dropWhile Quoted.isSpace

/-- Reads one key. -/
def key : List Char → Read String
  | '"' :: rest => (Quoted.basic rest).map fun (text, rest) => (String.ofList text, rest)
  | '\'' :: rest => (Quoted.literal rest).map fun (text, rest) => (String.ofList text, rest)
  | s =>
    let name := s.takeWhile isBareKeyChar
    if name.isEmpty then none else some (String.ofList name, s.dropWhile isBareKeyChar)

/-- Reads keys with points between them, of at most `n` parts, and the spaces around them. -/
def dottedKeyUpTo : Nat → List Char → Read (List String)
  | 0, _ => none
  | n + 1, s =>
    match key (dropSpaces s) with
    | none => none
    | some (name, rest) =>
      match dropSpaces rest with
      | '.' :: more => (dottedKeyUpTo n more).map fun (names, rest) => (name :: names, rest)
      | rest => some ([name], rest)

/-- Reads keys with points between them and the spaces around them. -/
def dottedKey (s : List Char) : Read (List String) := dottedKeyUpTo s.length s

/-- Reads a dotted key and the equals sign behind it, up to the value. -/
def assignee (s : List Char) : Read (List String) :=
  match dottedKey s with
  | some (names, '=' :: rest) => some (names, dropSpaces rest)
  | _ => none

/-! ## Values -/

/-- Drops the blanks, line breaks and comments between the elements of an array. -/
def dropArrayBlanks (comment : Bool) : List Char → List Char
  | [] => []
  | c :: rest =>
    if comment then dropArrayBlanks (c != '\n') rest
    else if Quoted.isSpace c || Quoted.isNewline c then dropArrayBlanks false rest
    else if c = '#' then dropArrayBlanks true rest
    else c :: rest

/-- Reads a truth value, a number, a date or a time. -/
def scalar (s : List Char) : Read Value :=
  match s with
  | 't' :: 'r' :: 'u' :: 'e' :: rest => some (.boolean true, rest)
  | 'f' :: 'a' :: 'l' :: 's' :: 'e' :: rest => some (.boolean false, rest)
  | '+' :: rest => Number.signed false s rest
  | '-' :: rest => Number.signed true s rest
  | c :: _ =>
    if Text.isDigit c then
      if DateTime.starts (s.takeWhile Text.isDigit) (s.dropWhile Text.isDigit) then
        DateTime.read s
      else Number.unsigned s
    else Number.special s s
  | [] => none

/-- Turns the text of a string into its value. -/
def ofText : Read (List Char) → Read Value :=
  Option.map fun (text, rest) => (.string (String.ofList text), rest)

mutual
/-- Reads a value; the number bounds how many readers may be open at once. -/
def valueUpTo : Nat → List Char → Read Value
  | 0, _ => none
  | n + 1, s =>
    match s with
    | '"' :: rest => ofText (Quoted.double rest)
    | '\'' :: rest => ofText (Quoted.single rest)
    | '[' :: rest => (itemsUpTo n none rest).map fun (items, rest) => (.array items, rest)
    | '\x7b' :: rest => (entriesUpTo n [] rest).map fun (t, rest) => (.table .inline t, rest)
    | _ => scalar s

/-- Reads the elements of an array, all of one type, up to the closing bracket. -/
def itemsUpTo : Nat → Option ElementType → List Char → Read (List Value)
  | 0, _, _ => none
  | n + 1, type?, s =>
    match dropArrayBlanks false s with
    | ']' :: rest => some ([], rest)
    | s =>
      match valueUpTo n s with
      | none => none
      | some (item, rest) =>
        if type?.getD item.elementType ≠ item.elementType then none
        else
          match dropArrayBlanks false rest with
          | ',' :: rest =>
            (itemsUpTo n (some item.elementType) rest).map fun (items, rest) =>
              (item :: items, rest)
          | ']' :: rest => some ([item], rest)
          | _ => none

/-- Reads the entries of an inline table behind those in `t`, up to the closing brace. -/
def entriesUpTo : Nat → Table → List Char → Read Table
  | 0, _, _ => none
  | n + 1, t, s =>
    match dropSpaces s with
    | '\x7d' :: rest => some (t, rest)
    | s =>
      match assignee s with
      | none => none
      | some (names, rest) =>
        match valueUpTo n rest with
        | none => none
        | some (value, rest) =>
          match t.assign value names with
          | none => none
          | some t =>
            match dropSpaces rest with
            | ',' :: rest => entriesUpTo n t rest
            | '\x7d' :: rest => some (t, rest)
            | _ => none
end

/-- Reads a value. -/
def value (s : List Char) : Read Value := valueUpTo (s.length + 1) s

/-! ## Lines -/

/-- Drops blanks and a comment up to the end of a line, which must follow. -/
def lineEnd? (s : List Char) : Option (List Char) :=
  match s.dropWhile fun c => Quoted.isSpace c || c == '\r' with
  | [] => some []
  | '\n' :: rest => some rest
  | '#' :: rest => some (rest.dropWhile (· != '\n'))
  | _ => none

/-- A document as far as it has been read: its table, and the path of the table that the last
header opened. -/
structure Progress where
  root : Table
  here : List String

/-- Opens the table or array element of a header. -/
def Progress.enter (p : Progress) (names : List String) (add : String → Table → Option Table) :
    Option Progress :=
  match names.getLast? with
  | none => none
  | some last => (Table.change (add last) names.dropLast p.root).map fun root => ⟨root, names⟩

/-- Gives a value to a key of the open table. -/
def Progress.assign (p : Progress) (names : List String) (value : Value) : Option Progress :=
  (Table.change (Table.assign value names) p.here p.root).map fun root => ⟨root, p.here⟩

/-- Reads a header from after its first bracket. -/
def header (p : Progress) : List Char → Read Progress
  | '[' :: s =>
    match dottedKey s with
    | some (names, ']' :: ']' :: rest) => (p.enter names Table.openElement).map (·, rest)
    | _ => none
  | s =>
    match dottedKey s with
    | some (names, ']' :: rest) => (p.enter names Table.openTable).map (·, rest)
    | _ => none

/-- Reads an assignment. -/
def assignment (p : Progress) (s : List Char) : Read Progress :=
  match assignee s with
  | none => none
  | some (names, rest) =>
    match value rest with
    | none => none
    | some (v, rest) => (p.assign names v).map (·, rest)

/-- Reads a header or an assignment. -/
def statement (p : Progress) : List Char → Read Progress
  | '[' :: rest => header p rest
  | s => assignment p s

/-- Reads statements to the end of the text; the number bounds the steps. -/
def statementsUpTo : Nat → Progress → List Char → Option Table
  | 0, _, _ => none
  | _ + 1, p, [] => some p.root
  | n + 1, p, c :: rest =>
    if Quoted.isSpace c || Quoted.isNewline c then statementsUpTo n p rest
    else if c = '#' then statementsUpTo n p (rest.dropWhile (· != '\n'))
    else
      match statement p (c :: rest) with
      | none => none
      | some (p, rest) =>
        match lineEnd? rest with
        | none => none
        | some rest => statementsUpTo n p rest

/-- Reads a document. -/
def read? (s : List Char) : Option Table := statementsUpTo (s.length + 1) ⟨[], []⟩ s

/-- The empty document is the empty table. -/
theorem read?_nil : read? [] = some [] := rfl

end WakeConfig.Toml
