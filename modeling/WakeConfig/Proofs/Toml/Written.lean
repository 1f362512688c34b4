import WakeConfig.Proofs.Toml.Keys

/-!
# Documents as they are written

A reader of TOML that gives the written form of a document, before any table is built: the text of
each key, and of each value without quotes its text and what it stands for. `Document.table?`
builds the table, and `read?_eq` says that reading a document is the one after the other. So a
statement about two texts can compare what is written in them.
-/

namespace WakeConfig.Toml

/-! ## Written forms -/

/-- A dotted key as it is written. -/
structure Key where
  text : List Char
  isKey : ∃ names, KeyText text names

/-- A value as it is written. -/
inductive Written where
  | string (text : String)
  | scalar (source : List Char) (value : Value)
  | array (items : List Written)
  | table (entries : List (Key × Written))

/-- A line of a document that is not blank: the header of a table or of an element of an array of
tables, or an assignment. -/
inductive Line where
  | header (key : Key)
  | element (key : Key)
  | entry (key : Key) (value : Written)

/-- A document as it is written. -/
abbrev Document := List Line

/-! ## The written reader -/

/-- The text that was read between two points of the input. -/
def sourceOf (s rest : List Char) : List Char := s.take (s.length - rest.length)

theorem sourceOf_append (src rest : List Char) : sourceOf (src ++ rest) rest = src := by
  simp [sourceOf]

/-- The key that was read between two points of the input. -/
def keyOf {s rest : List Char} {names : List String} (h : dottedKey s = some (names, rest)) :
    Key where
  text := sourceOf s rest
  isKey := by
    obtain ⟨src, rfl, hk⟩ := exists_keyText h
    exact ⟨names, by rwa [sourceOf_append]⟩

/-- Reads a dotted key and the characters behind it that end it. -/
def keyBefore (close s : List Char) : Read Key :=
  match h : dottedKey s with
  | none => none
  | some (_, rest) =>
    if close.isPrefixOf rest then some (keyOf h, rest.drop close.length) else none

/-- Reads a dotted key and the equals sign behind it, up to the value. -/
def writtenKey (s : List Char) : Read Key :=
  (keyBefore ['='] s).map fun (key, rest) => (key, dropSpaces rest)

mutual
/-- Reads a value; the number bounds how many readers may be open at once. -/
def writtenUpTo : Nat → List Char → Read Written
  | 0, _ => none
  | n + 1, s =>
    match s with
    | '"' :: rest =>
      (Quoted.double rest).map fun (text, rest) => (.string (String.ofList text), rest)
    | '\'' :: rest =>
      (Quoted.single rest).map fun (text, rest) => (.string (String.ofList text), rest)
    | '[' :: rest => (writtenItemsUpTo n rest).map fun (items, rest) => (.array items, rest)
    | '\x7b' :: rest =>
      (writtenEntriesUpTo n rest).map fun (entries, rest) => (.table entries, rest)
    | _ => (scalar s).map fun (v, rest) => (.scalar (sourceOf s rest) v, rest)

/-- Reads the elements of an array up to the closing bracket. -/
def writtenItemsUpTo : Nat → List Char → Read (List Written)
  | 0, _ => none
  | n + 1, s =>
    match dropArrayBlanks false s with
    | ']' :: rest => some ([], rest)
    | s =>
      match writtenUpTo n s with
      | none => none
      | some (item, rest) =>
        match dropArrayBlanks false rest with
        | ',' :: rest => (writtenItemsUpTo n rest).map fun (items, rest) => (item :: items, rest)
        | ']' :: rest => some ([item], rest)
        | _ => none

/-- Reads the entries of an inline table up to the closing brace. -/
def writtenEntriesUpTo : Nat → List Char → Read (List (Key × Written))
  | 0, _ => none
  | n + 1, s =>
    match dropSpaces s with
    | '\x7d' :: rest => some ([], rest)
    | s =>
      match writtenKey s with
      | none => none
      | some (key, rest) =>
        match writtenUpTo n rest with
        | none => none
        | some (w, rest) =>
          match dropSpaces rest with
          | ',' :: rest =>
            (writtenEntriesUpTo n rest).map fun (entries, rest) => ((key, w) :: entries, rest)
          | '\x7d' :: rest => some ([(key, w)], rest)
          | _ => none
end

/-- Reads a header from after its first bracket. -/
def writtenHeader : List Char → Read Line
  | '[' :: s => (keyBefore [']', ']'] s).map fun (key, rest) => (.element key, rest)
  | s => (keyBefore [']'] s).map fun (key, rest) => (.header key, rest)

/-- Reads an assignment. -/
def writtenAssignment (s : List Char) : Read Line :=
  match writtenKey s with
  | none => none
  | some (key, rest) =>
    (writtenUpTo (rest.length + 1) rest).map fun (w, rest) => (.entry key w, rest)

/-- Reads a header or an assignment. -/
def writtenLine : List Char → Read Line
  | '[' :: rest => writtenHeader rest
  | s => writtenAssignment s

/-- Reads lines to the end of the text; the number bounds the steps. -/
def linesUpTo : Nat → List Char → Option Document
  | 0, _ => none
  | _ + 1, [] => some []
  | n + 1, c :: rest =>
    if Quoted.isSpace c || Quoted.isNewline c then linesUpTo n rest
    else if c = '#' then linesUpTo n (rest.dropWhile (· != '\n'))
    else
      match writtenLine (c :: rest) with
      | none => none
      | some (line, rest) =>
        match lineEnd? rest with
        | none => none
        | some rest => (linesUpTo n rest).map (line :: ·)

/-- The document that a text writes. -/
def document? (s : List Char) : Option Document := linesUpTo (s.length + 1) s

/-! ## What is written -/

/-- The names of a dotted key. -/
def Key.names (k : Key) : List String := ((dottedKey k.text).map (·.1)).getD []

mutual
/-- The value that is written, if the elements of each array agree in type and no key of an inline
table is given twice. -/
def Written.value? : Written → Option Value
  | .string text => some (.string text)
  | .scalar _ v => some v
  | .array items => (itemValues? none items).map .array
  | .table entries => (entryTable? [] entries).map (.table .inline)

/-- The values of elements that follow one of a type. -/
def itemValues? : Option ElementType → List Written → Option (List Value)
  | _, [] => some []
  | type?, item :: items =>
    match item.value? with
    | none => none
    | some v =>
      if type?.getD v.elementType ≠ v.elementType then none
      else (itemValues? (some v.elementType) items).map (v :: ·)

/-- The table of the entries behind those in `t`. -/
def entryTable? : Table → List (Key × Written) → Option Table
  | t, [] => some t
  | t, (key, w) :: entries =>
    match w.value? with
    | none => none
    | some v =>
      match t.assign v key.names with
      | none => none
      | some t => entryTable? t entries
end

/-- What a line does to the table. -/
def Line.apply (p : Progress) : Line → Option Progress
  | header key => p.enter key.names Table.openTable
  | element key => p.enter key.names Table.openElement
  | entry key w => w.value?.bind (p.assign key.names)

namespace Document

/-- What lines do to the table, one after the other. -/
def run (p : Progress) : Document → Option Progress
  | [] => some p
  | line :: lines => (line.apply p).bind fun p => run p lines

/-- The table of a document. -/
def table? (d : Document) : Option Table := (d.run ⟨[], []⟩).map (·.root)

end Document

/-! ## Reading in two steps -/

variable {s rest src : List Char} {names : List String} {n : Nat}

theorem KeyText.names_eq (h : KeyText src names) (k : Key) (hk : k.text = src) :
    k.names = names := by
  have hd := h.dottedKey (r := []) (by simp [EndsKey])
  rw [List.append_nil] at hd
  rw [Key.names, hk, hd]
  rfl

theorem names_keyOf (h : dottedKey s = some (names, rest)) : (keyOf h).names = names := by
  obtain ⟨src, rfl, hk⟩ := exists_keyText h
  exact hk.names_eq _ (sourceOf_append src rest)

theorem keyBefore_none (close : List Char) (h : dottedKey s = none) :
    keyBefore close s = none := by
  unfold keyBefore
  split
  · rfl
  · rename_i h'
    rw [h] at h'
    cases h'

theorem keyBefore_some (close : List Char) (h : dottedKey s = some (names, rest)) :
    keyBefore close s
      = if close.isPrefixOf rest then some (keyOf h, rest.drop close.length) else none := by
  unfold keyBefore
  split
  · rename_i h'
    rw [h] at h'
    cases h'
  · rename_i h'
    have he := h.symm.trans h'
    obtain ⟨rfl, rfl⟩ := Prod.mk.inj (Option.some.inj he)
    rfl

/-- A choice by the character behind a dotted key, as the readers make it. -/
theorem match_keyBefore {β : Type} (close : Char) (s : List Char)
    (f : List String → List Char → Option β) :
    ((dottedKey s).bind fun p => match p.2 with
      | [] => none
      | c :: rest => if c = close then f p.1 rest else none)
      = (keyBefore [close] s).bind fun k => f k.1.names k.2 := by
  cases h : dottedKey s with
  | none => rw [keyBefore_none _ h, Option.bind_none, Option.bind_none]
  | some p =>
    obtain ⟨names, rest⟩ := p
    have hn := names_keyOf h
    rw [keyBefore_some _ h]
    cases rest with
    | nil => rfl
    | cons c rest =>
      by_cases hc : c = close
      · subst hc
        simp [hn]
      · simp [hc, Ne.symm hc]

theorem assignee_eq (s : List Char) :
    assignee s = (writtenKey s).map fun p => (p.1.names, p.2) := by
  have h := match_keyBefore '=' s fun names rest => some (names, dropSpaces rest)
  unfold assignee writtenKey
  rw [Option.map_map, Option.map_eq_bind]
  refine Eq.trans ?_ h
  cases dottedKey s with
  | none => rfl
  | some p =>
    obtain ⟨names, rest⟩ := p
    cases rest with
    | nil => rfl
    | cons c rest =>
      by_cases hc : c = '='
      · subst hc
        rfl
      · simp [hc]

theorem writtenUpTo_double (n : Nat) (s : List Char) : writtenUpTo (n + 1) ('"' :: s)
    = (Quoted.double s).map fun p => (.string (String.ofList p.1), p.2) := by
  rw [writtenUpTo]

theorem writtenUpTo_single (n : Nat) (s : List Char) : writtenUpTo (n + 1) ('\'' :: s)
    = (Quoted.single s).map fun p => (.string (String.ofList p.1), p.2) := by
  rw [writtenUpTo]

theorem writtenUpTo_array (n : Nat) (s : List Char) : writtenUpTo (n + 1) ('[' :: s)
    = (writtenItemsUpTo n s).map fun p => (.array p.1, p.2) := by
  rw [writtenUpTo]

theorem writtenUpTo_table (n : Nat) (s : List Char) : writtenUpTo (n + 1) ('\x7b' :: s)
    = (writtenEntriesUpTo n s).map fun p => (.table p.1, p.2) := by
  rw [writtenUpTo]

/-- No string, array or inline table starts here. -/
def OpensNothing (s : List Char) : Prop :=
  ∀ c ∈ s.head?, c ≠ '"' ∧ c ≠ '\'' ∧ c ≠ '[' ∧ c ≠ '\x7b'

theorem writtenUpTo_scalar (n : Nat) (hs : OpensNothing s) : writtenUpTo (n + 1) s
    = (scalar s).map fun p => (.scalar (sourceOf s p.2) p.1, p.2) := by
  rw [writtenUpTo]
  · rintro rest rfl
    exact (hs '"' rfl).1 rfl
  · rintro rest rfl
    exact (hs '\'' rfl).2.1 rfl
  · rintro rest rfl
    exact (hs '[' rfl).2.2.1 rfl
  · rintro rest rfl
    exact (hs '\x7b' rfl).2.2.2 rfl

/-- What stands behind an element: whether it is a comma or else the closing character, and the
rest. -/
def separator? (close : Char) : List Char → Option (Bool × List Char)
  | [] => none
  | c :: rest =>
    if c = ',' then some (true, rest) else if c = close then some (false, rest) else none

/-- A choice by the character behind an element, as the readers make it. -/
theorem match_separator {β : Type} (u : List Char) (more done : List Char → Option β) :
    (match u with
      | ',' :: rest => more rest
      | ']' :: rest => done rest
      | _ => none) = (separator? ']' u).bind fun q => if q.1 then more q.2 else done q.2 := by
  cases u with
  | nil => rfl
  | cons c u =>
    by_cases hc : c = ','
    · subst hc
      rfl
    · by_cases hb : c = ']'
      · subst hb
        rfl
      · simp [separator?, hc, hb]

theorem match_separator_brace {β : Type} (u : List Char) (more done : List Char → Option β) :
    (match u with
      | ',' :: rest => more rest
      | '\x7d' :: rest => done rest
      | _ => none) = (separator? '\x7d' u).bind fun q => if q.1 then more q.2 else done q.2 := by
  cases u with
  | nil => rfl
  | cons c u =>
    by_cases hc : c = ','
    · subst hc
      rfl
    · by_cases hb : c = '\x7d'
      · subst hb
        rfl
      · simp [separator?, hc, hb]

theorem writtenItemsUpTo_close (n : Nat) (h : dropArrayBlanks false s = ']' :: rest) :
    writtenItemsUpTo (n + 1) s = some ([], rest) := by
  rw [writtenItemsUpTo, h]
  rfl

theorem writtenItemsUpTo_item (n : Nat) (h : ∀ rest, dropArrayBlanks false s ≠ ']' :: rest) :
    writtenItemsUpTo (n + 1) s = (writtenUpTo n (dropArrayBlanks false s)).bind fun p =>
      (separator? ']' (dropArrayBlanks false p.2)).bind fun q =>
        if q.1 then (writtenItemsUpTo n q.2).map fun r => (p.1 :: r.1, r.2)
        else some ([p.1], q.2) := by
  rw [writtenItemsUpTo]
  split
  · exact absurd ‹_› (h _)
  · cases writtenUpTo n (dropArrayBlanks false s) with
    | none => rfl
    | some p => exact match_separator (dropArrayBlanks false p.2) _ _

theorem itemsUpTo_item (n : Nat) (type? : Option ElementType)
    (h : ∀ rest, dropArrayBlanks false s ≠ ']' :: rest) :
    itemsUpTo (n + 1) type? s = (valueUpTo n (dropArrayBlanks false s)).bind fun p =>
      if type?.getD p.1.elementType ≠ p.1.elementType then none
      else (separator? ']' (dropArrayBlanks false p.2)).bind fun q =>
        if q.1 then (itemsUpTo n (some p.1.elementType) q.2).map fun r => (p.1 :: r.1, r.2)
        else some ([p.1], q.2) := by
  rw [itemsUpTo]
  split
  · exact absurd ‹_› (h _)
  · cases valueUpTo n (dropArrayBlanks false s) with
    | none => rfl
    | some p =>
      have hm := match_separator (dropArrayBlanks false p.2)
        (fun rest => (itemsUpTo n (some p.1.elementType) rest).map fun r => (p.1 :: r.1, r.2))
        (fun rest => some ([p.1], rest))
      rw [Option.bind_some]
      dsimp only
      split
      · rfl
      · exact hm

theorem writtenEntriesUpTo_close (n : Nat) (h : dropSpaces s = '\x7d' :: rest) :
    writtenEntriesUpTo (n + 1) s = some ([], rest) := by
  rw [writtenEntriesUpTo, h]
  rfl

theorem writtenEntriesUpTo_entry (n : Nat) (h : ∀ rest, dropSpaces s ≠ '\x7d' :: rest) :
    writtenEntriesUpTo (n + 1) s = (writtenKey (dropSpaces s)).bind fun k =>
      (writtenUpTo n k.2).bind fun p =>
        (separator? '\x7d' (dropSpaces p.2)).bind fun q =>
          if q.1 then (writtenEntriesUpTo n q.2).map fun r => ((k.1, p.1) :: r.1, r.2)
          else some ([(k.1, p.1)], q.2) := by
  rw [writtenEntriesUpTo]
  split
  · exact absurd ‹_› (h _)
  · cases writtenKey (dropSpaces s) with
    | none => rfl
    | some k =>
      rw [Option.bind_some]
      dsimp only
      cases writtenUpTo n k.2 with
      | none => rfl
      | some p => exact match_separator_brace (dropSpaces p.2) _ _

theorem entriesUpTo_entry (n : Nat) (t : Table) (h : ∀ rest, dropSpaces s ≠ '\x7d' :: rest) :
    entriesUpTo (n + 1) t s = (assignee (dropSpaces s)).bind fun k =>
      (valueUpTo n k.2).bind fun p =>
        (t.assign p.1 k.1).bind fun t =>
          (separator? '\x7d' (dropSpaces p.2)).bind fun q =>
            if q.1 then entriesUpTo n t q.2 else some (t, q.2) := by
  rw [entriesUpTo]
  split
  · exact absurd ‹_› (h _)
  · cases assignee (dropSpaces s) with
    | none => rfl
    | some k =>
      rw [Option.bind_some]
      dsimp only
      cases valueUpTo n k.2 with
      | none => rfl
      | some p =>
        rw [Option.bind_some]
        dsimp only
        cases t.assign p.1 k.1 with
        | none => rfl
        | some t => exact match_separator_brace (dropSpaces p.2) _ _

/-- With this much fuel a value is read by reading its written form. -/
def ReadsInSteps (n : Nat) : Prop :=
  (∀ s, valueUpTo n s = (writtenUpTo n s).bind fun p => p.1.value?.map (·, p.2)) ∧
  (∀ type? s, itemsUpTo n type? s
    = (writtenItemsUpTo n s).bind fun p => (itemValues? type? p.1).map (·, p.2)) ∧
  ∀ t s, entriesUpTo n t s
    = (writtenEntriesUpTo n s).bind fun p => (entryTable? t p.1).map (·, p.2)

theorem valueUpTo_succ (h : ReadsInSteps n) (s : List Char) :
    valueUpTo (n + 1) s = (writtenUpTo (n + 1) s).bind fun p => p.1.value?.map (·, p.2) := by
  obtain ⟨-, hitems, hentries⟩ := h
  unfold valueUpTo
  split
  · rename_i rest
    rw [writtenUpTo_double, ofText]
    cases Quoted.double rest <;> simp [Written.value?]
  · rename_i rest
    rw [writtenUpTo_single, ofText]
    cases Quoted.single rest <;> simp [Written.value?]
  · rename_i rest
    rw [writtenUpTo_array, hitems]
    cases writtenItemsUpTo n rest with
    | none => rfl
    | some p => cases h : itemValues? none p.1 <;> simp [Written.value?, h]
  · rename_i rest
    rw [writtenUpTo_table, hentries]
    cases writtenEntriesUpTo n rest with
    | none => rfl
    | some p => cases h : entryTable? [] p.1 <;> simp [Written.value?, h]
  · rename_i hd hs hb hc
    rw [writtenUpTo_scalar]
    · cases scalar s <;> simp [Written.value?]
    · intro c hx
      cases s with
      | nil => cases hx
      | cons d s =>
        obtain rfl : d = c := by simpa using hx
        refine ⟨?_, ?_, ?_, ?_⟩
        · rintro rfl
          exact hd s rfl
        · rintro rfl
          exact hs s rfl
        · rintro rfl
          exact hb s rfl
        · rintro rfl
          exact hc s rfl

theorem itemValues?_cons (type? : Option ElementType) (w : Written) (ws : List Written) :
    itemValues? type? (w :: ws) = w.value?.bind fun v =>
      if type?.getD v.elementType ≠ v.elementType then none
      else (itemValues? (some v.elementType) ws).map (v :: ·) := by
  rw [itemValues?]
  cases w.value? <;> rfl

theorem entryTable?_cons (t : Table) (key : Key) (w : Written)
    (entries : List (Key × Written)) :
    entryTable? t ((key, w) :: entries) = w.value?.bind fun v =>
      (t.assign v key.names).bind fun t => entryTable? t entries := by
  rw [entryTable?]
  cases w.value? with
  | none => rfl
  | some v =>
    rw [Option.bind_some]
    dsimp only
    cases t.assign v key.names <;> rfl

theorem itemsUpTo_succ (h : ReadsInSteps n) (type? : Option ElementType) (s : List Char) :
    itemsUpTo (n + 1) type? s
      = (writtenItemsUpTo (n + 1) s).bind fun p => (itemValues? type? p.1).map (·, p.2) := by
  obtain ⟨hvalue, hitems, -⟩ := h
  by_cases hs : ∃ rest, dropArrayBlanks false s = ']' :: rest
  · obtain ⟨rest, hs⟩ := hs
    rw [writtenItemsUpTo_close n hs, itemsUpTo, hs]
    rfl
  · have hs' : ∀ rest, dropArrayBlanks false s ≠ ']' :: rest := fun rest h => hs ⟨rest, h⟩
    rw [writtenItemsUpTo_item n hs', itemsUpTo_item n type? hs', hvalue]
    cases writtenUpTo n (dropArrayBlanks false s) with
    | none => rfl
    | some p =>
      obtain ⟨w, rest⟩ := p
      simp only [Option.bind_some]
      cases hsep : separator? ']' (dropArrayBlanks false rest) with
      | none => cases w.value? <;> simp [hsep]
      | some q =>
        obtain ⟨more, rest'⟩ := q
        -- the elements behind this one count only if this one does
        cases hv : w.value? with
        | none => cases more <;> simp [itemValues?_cons, hv, Option.bind_map]
        | some v =>
          by_cases ht : type?.getD v.elementType = v.elementType
          · cases more with
            | false => simp [hsep, hv, ht, itemValues?]
            | true =>
              cases hq : writtenItemsUpTo n rest' <;>
                simp [hsep, itemValues?_cons, hv, ht, hitems, hq, Function.comp_def]
          · cases more <;>
              simp [itemValues?_cons, hv, ht, Option.bind_map]

theorem entriesUpTo_succ (h : ReadsInSteps n) (t : Table) (s : List Char) :
    entriesUpTo (n + 1) t s
      = (writtenEntriesUpTo (n + 1) s).bind fun p => (entryTable? t p.1).map (·, p.2) := by
  obtain ⟨hvalue, -, hentries⟩ := h
  by_cases hs : ∃ rest, dropSpaces s = '\x7d' :: rest
  · obtain ⟨rest, hs⟩ := hs
    rw [writtenEntriesUpTo_close n hs, entriesUpTo, hs]
    rfl
  · have hs' : ∀ rest, dropSpaces s ≠ '\x7d' :: rest := fun rest h => hs ⟨rest, h⟩
    rw [writtenEntriesUpTo_entry n hs', entriesUpTo_entry n t hs', assignee_eq]
    cases writtenKey (dropSpaces s) with
    | none => rfl
    | some k =>
      simp only [Option.map_some, Option.bind_some, hvalue]
      cases writtenUpTo n k.2 with
      | none => rfl
      | some p =>
        obtain ⟨w, rest⟩ := p
        simp only [Option.bind_some]
        cases hsep : separator? '\x7d' (dropSpaces rest) with
        | none => cases w.value? <;> simp [hsep]
        | some q =>
          obtain ⟨more, rest'⟩ := q
          cases hv : w.value? with
          | none => cases more <;> simp [entryTable?_cons, hv, Option.bind_map]
          | some v =>
            cases more with
            | false =>
              cases ht : t.assign v k.1.names <;>
                simp [hsep, hv, ht, entryTable?]
            | true =>
              cases hq : writtenEntriesUpTo n rest' <;>
                cases ht : t.assign v k.1.names <;>
                  simp [hsep, entryTable?_cons, hv, ht, hentries, hq]

theorem readsInSteps (n : Nat) : ReadsInSteps n := by
  induction n with
  | zero =>
    refine ⟨fun s => ?_, fun type? s => ?_, fun t s => ?_⟩
    · rw [valueUpTo, writtenUpTo, Option.bind_none]
    · rw [itemsUpTo, writtenItemsUpTo, Option.bind_none]
    · rw [entriesUpTo, writtenEntriesUpTo, Option.bind_none]
  | succ n ih => exact ⟨valueUpTo_succ ih, itemsUpTo_succ ih, entriesUpTo_succ ih⟩

theorem element_eq (p : Progress) (s : List Char) :
    header p ('[' :: s) = (writtenHeader ('[' :: s)).bind fun q => (q.1.apply p).map (·, q.2) := by
  simp only [header, writtenHeader]
  cases h : dottedKey s with
  | none =>
    rw [keyBefore_none _ h]
    rfl
  | some k =>
    obtain ⟨names, rest⟩ := k
    have hn := names_keyOf h
    rw [keyBefore_some _ h]
    rcases rest with _ | ⟨c, _ | ⟨d, rest⟩⟩
    · rfl
    · by_cases hc : c = ']' <;> simp [hc]
    · by_cases hc : c = ']'
      · subst hc
        by_cases hd : d = ']'
        · subst hd
          simp [Line.apply, hn]
        · simp [hd, Ne.symm hd]
      · simp [hc, Ne.symm hc]

theorem header_eq (p : Progress) (s : List Char) :
    header p s = (writtenHeader s).bind fun q => (q.1.apply p).map (·, q.2) := by
  by_cases hs : ∃ rest, s = '[' :: rest
  · obtain ⟨rest, rfl⟩ := hs
    exact element_eq p rest
  · have hs' : ∀ rest, s = '[' :: rest → False := fun rest h => hs ⟨rest, h⟩
    have h := match_keyBefore ']' s fun names rest =>
      (p.enter names Table.openTable).map (·, rest)
    rw [header.eq_2 p s hs', writtenHeader.eq_2 s hs', Option.map_eq_bind, Option.bind_assoc]
    refine Eq.trans ?_ h
    cases dottedKey s with
    | none => rfl
    | some k =>
      obtain ⟨names, rest⟩ := k
      cases rest with
      | nil => rfl
      | cons c rest =>
        by_cases hc : c = ']'
        · subst hc
          rfl
        · simp [hc]

theorem assignment_eq (p : Progress) (s : List Char) :
    assignment p s = (writtenAssignment s).bind fun q => (q.1.apply p).map (·, q.2) := by
  unfold assignment writtenAssignment
  rw [assignee_eq]
  cases writtenKey s with
  | none => rfl
  | some k =>
    obtain ⟨key, rest⟩ := k
    have hv := (readsInSteps (rest.length + 1)).1 rest
    simp only [Option.map_some, value, hv]
    cases writtenUpTo (rest.length + 1) rest with
    | none => rfl
    | some q =>
      obtain ⟨w, rest'⟩ := q
      cases h : w.value? <;> simp [Line.apply, h]

theorem statement_eq (p : Progress) (s : List Char) :
    statement p s = (writtenLine s).bind fun q => (q.1.apply p).map (·, q.2) := by
  by_cases hs : ∃ rest, s = '[' :: rest
  · obtain ⟨rest, rfl⟩ := hs
    exact header_eq p rest
  · have hs' : ∀ rest, s = '[' :: rest → False := fun rest h => hs ⟨rest, h⟩
    rw [statement.eq_2 p s hs', writtenLine.eq_2 s hs']
    exact assignment_eq p s

theorem statementsUpTo_eq (n : Nat) (p : Progress) (s : List Char) :
    statementsUpTo n p s = (linesUpTo n s).bind fun d => (d.run p).map (·.root) := by
  induction n generalizing p s with
  | zero => rw [statementsUpTo, linesUpTo, Option.bind_none]
  | succ n ih =>
    cases s with
    | nil => rfl
    | cons c s =>
      rw [statementsUpTo, linesUpTo]
      split
      · exact ih p s
      · split
        · exact ih p _
        · rw [statement_eq]
          cases writtenLine (c :: s) with
          | none => rfl
          | some q =>
            obtain ⟨line, rest⟩ := q
            simp only [Option.bind_some]
            -- a line that cannot be applied ends the reading, whatever is behind it
            cases hp : line.apply p with
            | none =>
              cases lineEnd? rest with
              | none => rfl
              | some rest => cases hd : linesUpTo n rest <;> simp [Document.run, hp, hd]
            | some p' =>
              cases hl : lineEnd? rest with
              | none => simp [hl]
              | some rest' => cases hd : linesUpTo n rest' <;> simp [hl, ih, hd, Document.run, hp]

/-- Reading a document is reading what it writes and building the table of that. -/
theorem read?_eq (s : List Char) : read? s = (document? s).bind Document.table? :=
  statementsUpTo_eq _ _ _

end WakeConfig.Toml
