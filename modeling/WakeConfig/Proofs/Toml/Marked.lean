import WakeConfig.Proofs.Toml.Scalars
import WakeConfig.Proofs.Toml.Views
import WakeConfig.Proofs.Toml.Written

/-!
# Marked documents

What marking does to a document as it is written: every float token that stands as a value becomes
a string, and every key is marked as a text. `document?_mark` states it for the documents in which
no local time takes a quote mark or a number sign with it; behind such a time the marks could be
anywhere.
-/

namespace WakeConfig.Toml

open FloatLiteral (isDelimiter isFloatToken mark marker Stops)

variable {c : Char} {s t rest close : List Char}

/-! ## Parts of a document -/

mutual
/-- A value and everything in it. -/
def Written.parts : Written → List Written
  | .string text => [.string text]
  | .scalar src v => [.scalar src v]
  | .array items => .array items :: itemParts items
  | .table entries => .table entries :: entryParts entries

/-- Some elements and everything in them. -/
def itemParts : List Written → List Written
  | [] => []
  | item :: items => item.parts ++ itemParts items

/-- The values of some entries and everything in them. -/
def entryParts : List (Key × Written) → List Written
  | [] => []
  | (_, w) :: entries => w.parts ++ entryParts entries
end

/-- The values that stand in a line. -/
def Line.parts : Line → List Written
  | .header _ => []
  | .element _ => []
  | .entry _ w => w.parts

/-- The values that stand in a document. -/
def Document.parts (d : Document) : List Written := d.flatMap Line.parts

/-- Whether a date or time holds no quote mark and no number sign. -/
def Written.keepsStep : Written → Bool
  | .scalar src .datetime => decide (DateTime.IsBare src)
  | _ => true

/-- Whether no date or time of a document holds a quote mark or a number sign. -/
def Document.keepsStep (d : Document) : Bool := d.parts.all Written.keepsStep

/-! ## Marking what is written -/

theorem KeyText.mark_eq {names : List String} (h : KeyText s names) :
    ∃ names', KeyText (FloatLiteral.mark s) names' ∧ Respelled names names' ∧
      ∀ r, EndsKey r → FloatLiteral.mark (s ++ r) = FloatLiteral.mark s ++ FloatLiteral.mark r := by
  obtain ⟨src', names', hk, hn, hmark⟩ := h.mark
  have hs := hmark [] (by simp [EndsKey])
  rw [List.append_nil, FloatLiteral.mark_nil, List.append_nil] at hs
  subst hs
  exact ⟨names', hk, hn, hmark⟩

/-- A key after marking. -/
def Key.mark (k : Key) : Key where
  text := FloatLiteral.mark k.text
  isKey := by
    obtain ⟨names, h⟩ := k.isKey
    obtain ⟨names', h', -⟩ := h.mark_eq
    exact ⟨names', h'⟩

/-- A key keeps its names up to the first one that can change. -/
theorem Key.respelled (k : Key) : Respelled k.names k.mark.names := by
  obtain ⟨names, h⟩ := k.isKey
  obtain ⟨names', h', hn, -⟩ := h.mark_eq
  rwa [h.names_eq k rfl, h'.names_eq k.mark rfl]

/-- What a value without quotes is after marking. -/
def markScalar (src : List Char) : Value → Written
  | .float token =>
    if isFloatToken token.toList then .string (marker ++ token) else .scalar src (.float token)
  | v => .scalar src v.marked

mutual
/-- A value with its keys marked and its values without quotes changed. -/
def Written.respell (scalar : List Char → Value → Written) : Written → Written
  | .string text => .string text
  | .scalar src v => scalar src v
  | .array items => .array (respellItems scalar items)
  | .table entries => .table (respellEntries scalar entries)

/-- The same for some elements. -/
def respellItems (scalar : List Char → Value → Written) : List Written → List Written
  | [] => []
  | item :: items => item.respell scalar :: respellItems scalar items

/-- The same for some entries. -/
def respellEntries (scalar : List Char → Value → Written) :
    List (Key × Written) → List (Key × Written)
  | [] => []
  | (key, w) :: entries => (key.mark, w.respell scalar) :: respellEntries scalar entries
end

/-- A line with its keys marked and its values without quotes changed. -/
def Line.respell (scalar : List Char → Value → Written) : Line → Line
  | header key => header key.mark
  | element key => element key.mark
  | entry key w => entry key.mark (w.respell scalar)

namespace Document

/-- A document with its keys and its float tokens marked. -/
def marked (d : Document) : Document := d.map (Line.respell markScalar)

/-- A document with its keys marked and its values left as they are. -/
def respelled (d : Document) : Document := d.map (Line.respell .scalar)

end Document

variable {key : Key} {n m : Nat} {v : Value} {w : Written} {line : Line} {d : Document}

/-! ## Values without quotes -/

theorem markScalar_of_isFloatToken {token : String} (h : isFloatToken token.toList = true)
    (src : List Char) : markScalar src (.float token) = .string (marker ++ token) := if_pos h

theorem markScalar_of_not_isFloatToken (hw : v.IsWord s) (h : isFloatToken s = false) :
    markScalar s v = .scalar s v := by
  cases v with
  | float token =>
    obtain ⟨rfl, -⟩ := hw
    exact if_neg (by simp [h])
  | boolean b => simp [markScalar]
  | integer written => simp [markScalar]
  | _ => exact hw.elim

theorem markScalar_datetime (src : List Char) :
    markScalar src .datetime = .scalar src .datetime := by
  simp [markScalar]

/-- A float token is read back as the string that marking makes of it. -/
theorem writtenUpTo_float {src : List Char} (h : isFloatToken src = true) (hne : src ≠ [])
    (hw : ∀ c ∈ src, isDelimiter c = false) (hr : Stops rest) (m : Nat) :
    writtenUpTo (m + 1) (mark (src ++ rest))
      = some (.string (marker ++ String.ofList src), mark rest) := by
  have hm : mark (src ++ rest)
      = '"' :: ("\\uE000toml-float:".toList ++ (src ++ '"' :: mark rest)) := by
    rw [FloatLiteral.mark_word hne hw hr.delimiter, FloatLiteral.Piece.ofToken, if_pos h]
    show '"' :: ("\\uE000toml-float:".toList ++ src ++ ['"']) ++ mark rest = _
    simp
  have ht : marker ++ String.ofList src = String.ofList (marker.toList ++ src) := by
    rw [String.ofList_append, String.ofList_toList]
  rw [hm, writtenUpTo_double, Quoted.double_marked h, ht]
  rfl

theorem opensNothing_append {src : List Char} (hne : src ≠ []) (h : OpensNothing (src ++ s))
    (t : List Char) : OpensNothing (src ++ t) := by
  obtain ⟨c, src, rfl⟩ := List.exists_cons_of_ne_nil hne
  exact h

/-- A value that is copied is read from the copy as before. -/
theorem writtenUpTo_copied {src : List Char} (ho : OpensNothing (src ++ rest)) (hne : src ≠ [])
    (hm : mark (src ++ rest) = src ++ mark rest)
    (hread : scalar (src ++ mark rest) = some (v, mark rest)) (m : Nat) :
    writtenUpTo (m + 1) (mark (src ++ rest)) = some (.scalar src v, mark rest) := by
  rw [hm, writtenUpTo_scalar m (opensNothing_append hne ho _), hread, Option.map_some,
    sourceOf_append]

theorem writtenUpTo_scalar_mark (ho : OpensNothing s) (hr : Stops rest)
    (h : writtenUpTo (n + 1) s = some (w, rest)) (hk : w.keepsStep = true) (m : Nat) :
    writtenUpTo (m + 1) (mark s) = some (w.respell markScalar, mark rest) := by
  rw [writtenUpTo_scalar n ho] at h
  obtain ⟨⟨v, rest'⟩, hs, he⟩ := Option.map_eq_some_iff.1 h
  obtain ⟨rfl, rfl⟩ := Prod.mk.inj he
  obtain ⟨src, rfl, hread | ⟨rfl, hdate⟩⟩ := exists_readFrom hr hs
  · rw [sourceOf_append] at hk ⊢
    rw [Written.respell]
    by_cases hf : isFloatToken src = true
    · cases v with
      | float token =>
        obtain ⟨rfl, -⟩ := hread.isWord
        rw [markScalar_of_isFloatToken (by rwa [String.toList_ofList]),
          writtenUpTo_float hf hread.ne_nil hread.word hr]
      | boolean b => exact absurd hf (ne_true_of_eq_false hread.isWord)
      | integer written => exact absurd hf (ne_true_of_eq_false hread.isWord)
      | _ => exact hread.isWord.elim
    · rw [Bool.not_eq_true] at hf
      rw [markScalar_of_not_isFloatToken hread.isWord hf]
      exact writtenUpTo_copied ho hread.ne_nil (FloatLiteral.mark_copied ⟨hread.word, hf⟩ hr)
        (hread.reads _ (FloatLiteral.head?_mark hr)) m
  · rw [sourceOf_append] at hk ⊢
    rw [Written.respell, markScalar_datetime]
    exact writtenUpTo_copied ho hdate.ne_nil (hdate.copied (of_decide_eq_true hk))
      (hdate.reads _ (FloatLiteral.head?_mark hr)) m

/-! ## Strings and keys -/

theorem mark_open (h : c = '[' ∨ c = '\x7b' ∨ c = ']' ∨ c = '\x7d' ∨ c = ',' ∨ c = '=')
    (s : List Char) : mark (c :: s) = c :: mark s := by
  rcases h with rfl | rfl | rfl | rfl | rfl | rfl <;>
    exact FloatLiteral.mark_delimiter (by decide) (by decide) (by decide) (by decide)

theorem head?_mark_ne {q : Char} (hr : Stops s) (hq : q = '"' ∨ q = '\'') :
    (∀ c ∈ s.head?, c ≠ q) ∧ ∀ c ∈ (mark s).head?, c ≠ q := by
  have h : ∀ c ∈ s.head?, c ≠ q := by
    intro c hc
    rcases hq with rfl | rfl
    · exact (hr c hc).2.1
    · exact (hr c hc).2.2
  exact ⟨h, by rwa [FloatLiteral.head?_mark hr]⟩

/-- What ends a key is an equals sign or brackets. -/
def ClosesKey (close : List Char) : Prop := close = ['='] ∨ close = [']'] ∨ close = [']', ']']

theorem ClosesKey.endsKey (h : ClosesKey close) (s : List Char) : EndsKey (close ++ s) := by
  rcases h with rfl | rfl | rfl <;> simp [EndsKey]

theorem ClosesKey.mark_append (h : ClosesKey close) (s : List Char) :
    mark (close ++ s) = close ++ mark s := by
  rcases h with rfl | rfl | rfl <;> simp [mark_open]

/-- A key is read from a marked text as the marked key. -/
theorem keyBefore_mark (hc : ClosesKey close) (h : keyBefore close s = some (key, rest)) :
    keyBefore close (mark s) = some (key.mark, mark rest) := by
  cases hd : dottedKey s with
  | none =>
    rw [keyBefore_none _ hd] at h
    cases h
  | some p =>
    obtain ⟨names, after⟩ := p
    rw [keyBefore_some _ hd] at h
    split at h
    · rename_i hp
      obtain ⟨t, rfl⟩ := List.isPrefixOf_iff_prefix.1 hp
      obtain ⟨rfl, rfl⟩ := Prod.mk.inj (Option.some.inj h)
      obtain ⟨src, rfl, hk⟩ := exists_keyText hd
      obtain ⟨names', hk', -, hmark⟩ := hk.mark_eq
      have hp' : close.isPrefixOf (close ++ mark t) = true :=
        List.isPrefixOf_iff_prefix.2 ⟨_, rfl⟩
      have hd' : dottedKey (mark src ++ (close ++ mark t)) = some (names', close ++ mark t) :=
        hk'.dottedKey (hc.endsKey _)
      have hkey : keyOf hd' = (keyOf hd).mark := by
        simp only [keyOf, Key.mark, sourceOf_append]
      rw [hmark _ (hc.endsKey t), hc.mark_append, keyBefore_some _ hd', if_pos hp', hkey,
        List.drop_left, List.drop_left]
    · cases h

theorem writtenKey_mark (h : writtenKey s = some (key, rest)) :
    writtenKey (mark s) = some (key.mark, mark rest) := by
  obtain ⟨⟨key, after⟩, hk, he⟩ := Option.map_eq_some_iff.1 h
  obtain ⟨rfl, rfl⟩ := Prod.mk.inj he
  rw [writtenKey, keyBefore_mark (.inl rfl) hk, ← FloatLiteral.dropSpaces_mark]
  rfl

/-! ## What stands behind a value -/

theorem not_open_mark (hc : c ≠ '"') (h : ∀ t, s ≠ c :: t) (t : List Char) : mark s ≠ c :: t := by
  cases s with
  | nil =>
    rw [FloatLiteral.mark_nil]
    simp
  | cons d s =>
    obtain ⟨e, u, hm, he⟩ := FloatLiteral.mark_head d s
    rw [hm]
    intro heq
    obtain ⟨rfl, -⟩ := List.cons.inj heq
    rcases he with rfl | ⟨-, rfl⟩
    · exact h s rfl
    · exact hc rfl

theorem eq_of_separator? {more : Bool} (h : separator? c s = some (more, rest)) :
    s = (if more then ',' else c) :: rest := by
  cases s with
  | nil => cases h
  | cons d s =>
    rw [separator?] at h
    split at h
    · rename_i hd
      obtain ⟨rfl, rfl⟩ := Prod.mk.inj (Option.some.inj h)
      rw [hd, if_pos rfl]
    · split at h
      · rename_i hd
        obtain ⟨rfl, rfl⟩ := Prod.mk.inj (Option.some.inj h)
        rw [hd, if_neg Bool.false_ne_true]
      · cases h

theorem separator?_mark {more : Bool} (hc : c = ']' ∨ c = '\x7d')
    (h : separator? c s = some (more, rest)) : separator? c (mark s) = some (more, mark rest) := by
  obtain rfl := eq_of_separator? h
  cases more with
  | true =>
    rw [if_pos rfl, mark_open (by simp)]
    rfl
  | false =>
    rw [if_neg Bool.false_ne_true, mark_open (by rcases hc with rfl | rfl <;> simp)]
    rcases hc with rfl | rfl <;> rfl

theorem stops_of_separator? {more : Bool} (hc : c = ']' ∨ c = '\x7d')
    (h : separator? c s = some (more, rest)) : Stops s := by
  obtain rfl := eq_of_separator? h
  rcases hc with rfl | rfl <;> cases more <;>
    exact FloatLiteral.stops_cons (by decide) (by decide) (by decide)

theorem stops_of_dropWhile {p : Char → Bool}
    (hp : ∀ c, p c = true → isDelimiter c = true ∧ c ≠ '#' ∧ c ≠ '"' ∧ c ≠ '\'')
    (h : Stops (s.dropWhile p)) : Stops s := by
  cases s with
  | nil => exact h
  | cons c s =>
    by_cases hc : p c = true
    · exact FloatLiteral.stops_cons (hp c hc).1 (hp c hc).2.2.1 (hp c hc).2.2.2
    · rwa [List.dropWhile_cons_of_neg hc] at h

theorem stops_of_dropSpaces (h : Stops (dropSpaces s)) : Stops s :=
  stops_of_dropWhile (fun _ => FloatLiteral.isSpace_delimiter) h

theorem stops_of_dropArrayBlanks (h : Stops (dropArrayBlanks false s)) : Stops s := by
  cases s with
  | nil => exact FloatLiteral.stops_nil
  | cons c s =>
    by_cases hb : Quoted.isSpace c = true ∨ Quoted.isNewline c = true
    · obtain ⟨hd, -, hq, hs⟩ :=
        hb.elim FloatLiteral.isSpace_delimiter FloatLiteral.isNewline_delimiter
      exact FloatLiteral.stops_cons hd hq hs
    · by_cases hn : c = '#'
      · subst hn
        exact FloatLiteral.stops_cons (by decide) (by decide) (by decide)
      · simpa [dropArrayBlanks, hb, hn] using h

theorem stops_of_lineEnd? (h : lineEnd? s = some rest) : Stops s := by
  refine stops_of_dropWhile (p := fun c => Quoted.isSpace c || c == '\r') (fun c hc => ?_) ?_
  · simp only [Bool.or_eq_true, beq_iff_eq] at hc
    rcases hc with hc | rfl
    · exact FloatLiteral.isSpace_delimiter hc
    · decide
  · unfold lineEnd? at h
    split at h
    · rename_i hd
      rw [hd]
      exact FloatLiteral.stops_nil
    · rename_i hd
      rw [hd]
      exact FloatLiteral.stops_cons (by decide) (by decide) (by decide)
    · rename_i hd
      rw [hd]
      exact FloatLiteral.stops_cons (by decide) (by decide) (by decide)
    · cases h

/-! ## Values -/

/-- What is read with this much fuel is read from the marked text with as much or more. -/
def MarksUpTo (n : Nat) : Prop :=
  (∀ {s w rest m}, n ≤ m → writtenUpTo n s = some (w, rest) → Stops rest →
    (∀ p ∈ w.parts, p.keepsStep = true) →
    writtenUpTo m (mark s) = some (w.respell markScalar, mark rest)) ∧
  (∀ {s items rest m}, n ≤ m → writtenItemsUpTo n s = some (items, rest) →
    (∀ p ∈ itemParts items, p.keepsStep = true) →
    writtenItemsUpTo m (mark s) = some (respellItems markScalar items, mark rest)) ∧
  ∀ {s entries rest m}, n ≤ m → writtenEntriesUpTo n s = some (entries, rest) →
    (∀ p ∈ entryParts entries, p.keepsStep = true) →
    writtenEntriesUpTo m (mark s) = some (respellEntries markScalar entries, mark rest)

theorem exists_opening (h : ¬OpensNothing s) :
    ∃ c t, s = c :: t ∧ (c = '"' ∨ c = '\'' ∨ c = '[' ∨ c = '\x7b') := by
  cases s with
  | nil => exact absurd (by simp [OpensNothing]) h
  | cons c t =>
    refine ⟨c, t, rfl, ?_⟩
    refine Decidable.byContradiction fun hc => h ?_
    intro x hx
    obtain rfl : c = x := by simpa using hx
    simpa [not_or] using hc

theorem writtenUpTo_mark (ih : MarksUpTo n) (hm : n ≤ m)
    (h : writtenUpTo (n + 1) s = some (w, rest)) (hr : Stops rest)
    (hk : ∀ p ∈ w.parts, p.keepsStep = true) :
    writtenUpTo (m + 1) (mark s) = some (w.respell markScalar, mark rest) := by
  obtain ⟨-, hitems, hentries⟩ := ih
  by_cases ho : OpensNothing s
  · refine writtenUpTo_scalar_mark ho hr h ?_ m
    rw [writtenUpTo_scalar n ho] at h
    obtain ⟨⟨v, rest'⟩, -, he⟩ := Option.map_eq_some_iff.1 h
    obtain ⟨rfl, rfl⟩ := Prod.mk.inj he
    exact hk _ (by simp [Written.parts])
  · obtain ⟨c, t, rfl, rfl | rfl | rfl | rfl⟩ := exists_opening ho
    · rw [writtenUpTo_double] at h
      obtain ⟨⟨text, rest'⟩, hq, he⟩ := Option.map_eq_some_iff.1 h
      obtain ⟨rfl, rfl⟩ := Prod.mk.inj he
      obtain ⟨hne, hne'⟩ := head?_mark_ne hr (.inl rfl)
      obtain ⟨src, rfl, hs⟩ := Quoted.double_spelling hq hne
      have hmark := mark_quoted (.inl rfl) hs hne
      rw [List.cons_append, List.cons_append] at hmark
      rw [hmark, writtenUpTo_double, hs.reads _ hne', Written.respell]
      rfl
    · rw [writtenUpTo_single] at h
      obtain ⟨⟨text, rest'⟩, hq, he⟩ := Option.map_eq_some_iff.1 h
      obtain ⟨rfl, rfl⟩ := Prod.mk.inj he
      obtain ⟨hne, hne'⟩ := head?_mark_ne hr (.inr rfl)
      obtain ⟨src, rfl, hs⟩ := Quoted.single_spelling hq hne
      have hmark := mark_quoted (.inr rfl) hs hne
      rw [List.cons_append, List.cons_append] at hmark
      rw [hmark, writtenUpTo_single, hs.reads _ hne', Written.respell]
      rfl
    · rw [writtenUpTo_array] at h
      obtain ⟨⟨items, rest'⟩, hi, he⟩ := Option.map_eq_some_iff.1 h
      obtain ⟨rfl, rfl⟩ := Prod.mk.inj he
      rw [mark_open (by simp), writtenUpTo_array, hitems hm hi fun p hp => hk p ?_,
        Written.respell]
      · rfl
      · rw [Written.parts]
        exact List.mem_cons_of_mem _ hp
    · rw [writtenUpTo_table] at h
      obtain ⟨⟨entries, rest'⟩, hi, he⟩ := Option.map_eq_some_iff.1 h
      obtain ⟨rfl, rfl⟩ := Prod.mk.inj he
      rw [mark_open (by simp), writtenUpTo_table, hentries hm hi fun p hp => hk p ?_,
        Written.respell]
      · rfl
      · rw [Written.parts]
        exact List.mem_cons_of_mem _ hp

theorem writtenItemsUpTo_mark {items : List Written} (ih : MarksUpTo n) (hm : n ≤ m)
    (h : writtenItemsUpTo (n + 1) s = some (items, rest))
    (hk : ∀ p ∈ itemParts items, p.keepsStep = true) :
    writtenItemsUpTo (m + 1) (mark s) = some (respellItems markScalar items, mark rest) := by
  obtain ⟨hvalue, hitems, -⟩ := ih
  have hd := FloatLiteral.dropArrayBlanks_mark s
  by_cases hs : ∃ t, dropArrayBlanks false s = ']' :: t
  · obtain ⟨t, hs⟩ := hs
    rw [writtenItemsUpTo_close n hs] at h
    obtain ⟨rfl, rfl⟩ := Prod.mk.inj (Option.some.inj h)
    rw [hs, mark_open (by simp)] at hd
    rw [writtenItemsUpTo_close m hd, respellItems]
  · have hs' : ∀ t, dropArrayBlanks false s ≠ ']' :: t := fun t h => hs ⟨t, h⟩
    rw [writtenItemsUpTo_item n hs'] at h
    obtain ⟨⟨w, after⟩, hw, h⟩ := Option.bind_eq_some_iff.1 h
    obtain ⟨⟨more, next⟩, hsep, h⟩ := Option.bind_eq_some_iff.1 h
    have hstop := stops_of_dropArrayBlanks (stops_of_separator? (.inl rfl) hsep)
    have hsep' := separator?_mark (.inl rfl) hsep
    rw [writtenItemsUpTo_item m (hd ▸ not_open_mark (by decide) hs'), hd]
    cases more with
    | false =>
      obtain ⟨rfl, rfl⟩ := Prod.mk.inj (Option.some.inj h)
      rw [hvalue hm hw hstop fun p hp => hk p (by simp [itemParts, hp]), Option.bind_some,
        FloatLiteral.dropArrayBlanks_mark, hsep', Option.bind_some, respellItems, respellItems]
      rfl
    | true =>
      obtain ⟨⟨items', rest'⟩, hi, he⟩ := Option.map_eq_some_iff.1 h
      obtain ⟨rfl, rfl⟩ := Prod.mk.inj he
      rw [hvalue hm hw hstop fun p hp => hk p (by simp [itemParts, hp]), Option.bind_some,
        FloatLiteral.dropArrayBlanks_mark, hsep', Option.bind_some, if_pos rfl,
        hitems hm hi fun p hp => hk p (by simp [itemParts, hp]), respellItems]
      rfl

theorem writtenEntriesUpTo_mark {entries : List (Key × Written)} (ih : MarksUpTo n)
    (hm : n ≤ m) (h : writtenEntriesUpTo (n + 1) s = some (entries, rest))
    (hk : ∀ p ∈ entryParts entries, p.keepsStep = true) :
    writtenEntriesUpTo (m + 1) (mark s) = some (respellEntries markScalar entries, mark rest) := by
  obtain ⟨hvalue, -, hentries⟩ := ih
  have hd := FloatLiteral.dropSpaces_mark s
  by_cases hs : ∃ t, dropSpaces s = '\x7d' :: t
  · obtain ⟨t, hs⟩ := hs
    rw [writtenEntriesUpTo_close n hs] at h
    obtain ⟨rfl, rfl⟩ := Prod.mk.inj (Option.some.inj h)
    rw [hs, mark_open (by simp)] at hd
    rw [writtenEntriesUpTo_close m hd, respellEntries]
  · have hs' : ∀ t, dropSpaces s ≠ '\x7d' :: t := fun t h => hs ⟨t, h⟩
    rw [writtenEntriesUpTo_entry n hs'] at h
    obtain ⟨⟨key, mid⟩, hkey, h⟩ := Option.bind_eq_some_iff.1 h
    obtain ⟨⟨w, after⟩, hw, h⟩ := Option.bind_eq_some_iff.1 h
    obtain ⟨⟨more, next⟩, hsep, h⟩ := Option.bind_eq_some_iff.1 h
    have hstop := stops_of_dropSpaces (stops_of_separator? (.inr rfl) hsep)
    have hsep' := separator?_mark (.inr rfl) hsep
    rw [writtenEntriesUpTo_entry m (hd ▸ not_open_mark (by decide) hs'), hd,
      writtenKey_mark hkey, Option.bind_some]
    cases more with
    | false =>
      obtain ⟨rfl, rfl⟩ := Prod.mk.inj (Option.some.inj h)
      rw [hvalue hm hw hstop fun p hp => hk p (by simp [entryParts, hp]), Option.bind_some,
        FloatLiteral.dropSpaces_mark, hsep', Option.bind_some, respellEntries, respellEntries]
      rfl
    | true =>
      obtain ⟨⟨entries', rest'⟩, hi, he⟩ := Option.map_eq_some_iff.1 h
      obtain ⟨rfl, rfl⟩ := Prod.mk.inj he
      rw [hvalue hm hw hstop fun p hp => hk p (by simp [entryParts, hp]), Option.bind_some,
        FloatLiteral.dropSpaces_mark, hsep', Option.bind_some, if_pos rfl,
        hentries hm hi fun p hp => hk p (by simp [entryParts, hp]), respellEntries]
      rfl

theorem marksUpTo (n : Nat) : MarksUpTo n := by
  induction n with
  | zero =>
    refine ⟨fun _ h => ?_, fun _ h => ?_, fun _ h => ?_⟩
    · rw [writtenUpTo] at h
      cases h
    · rw [writtenItemsUpTo] at h
      cases h
    · rw [writtenEntriesUpTo] at h
      cases h
  | succ n ih =>
    refine ⟨fun {s w rest m} hm h hr hk => ?_, fun {s items rest m} hm h hk => ?_,
      fun {s entries rest m} hm h hk => ?_⟩ <;> obtain ⟨m, rfl⟩ := Nat.exists_eq_add_of_le' hm
    · exact writtenUpTo_mark ih (Nat.le_add_left n m) h hr hk
    · exact writtenItemsUpTo_mark ih (Nat.le_add_left n m) h hk
    · exact writtenEntriesUpTo_mark ih (Nat.le_add_left n m) h hk

/-! ## Lines -/

theorem writtenHeader_mark (h : writtenHeader s = some (line, rest)) :
    writtenHeader (mark s) = some (line.respell markScalar, mark rest) := by
  by_cases hs : ∃ t, s = '[' :: t
  · obtain ⟨t, rfl⟩ := hs
    rw [writtenHeader] at h
    obtain ⟨⟨key, rest'⟩, hk, he⟩ := Option.map_eq_some_iff.1 h
    obtain ⟨rfl, rfl⟩ := Prod.mk.inj he
    rw [mark_open (by simp), writtenHeader, keyBefore_mark (.inr (.inr rfl)) hk]
    rfl
  · have hs' : ∀ t, s ≠ '[' :: t := fun t h => hs ⟨t, h⟩
    rw [writtenHeader.eq_2 s hs'] at h
    obtain ⟨⟨key, rest'⟩, hk, he⟩ := Option.map_eq_some_iff.1 h
    obtain ⟨rfl, rfl⟩ := Prod.mk.inj he
    rw [writtenHeader.eq_2 _ (not_open_mark (by decide) hs'), keyBefore_mark (.inr (.inl rfl)) hk]
    rfl

theorem length_source_le (p : FloatLiteral.Piece) : p.source.length ≤ p.marked.length := by
  cases p with
  | verbatim chars => exact Nat.le_refl _
  | float token =>
    have hm : (FloatLiteral.Piece.float token).marked
        = "\"\\uE000toml-float:".toList ++ token ++ ['"'] := rfl
    rw [hm, List.length_append, List.length_append]
    show token.length ≤ _
    omega

/-- Marking does not make a text shorter. -/
theorem length_le_mark (s : List Char) : s.length ≤ (mark s).length := by
  have hs : ∀ ps : List FloatLiteral.Piece,
      (ps.flatMap FloatLiteral.Piece.source).length
        ≤ (ps.flatMap FloatLiteral.Piece.marked).length := by
    intro ps
    induction ps with
    | nil => exact Nat.le_refl _
    | cons p ps ih =>
      rw [List.flatMap_cons, List.flatMap_cons, List.length_append, List.length_append]
      exact Nat.add_le_add (length_source_le p) ih
  have h := hs (FloatLiteral.pieces s)
  rwa [FloatLiteral.flatMap_source_pieces] at h

theorem writtenAssignment_mark (h : writtenAssignment s = some (line, rest)) (hr : Stops rest)
    (hk : ∀ p ∈ line.parts, p.keepsStep = true) :
    writtenAssignment (mark s) = some (line.respell markScalar, mark rest) := by
  unfold writtenAssignment at h
  split at h
  · cases h
  · rename_i key after hkey
    obtain ⟨⟨w, rest'⟩, hw, he⟩ := Option.map_eq_some_iff.1 h
    obtain ⟨rfl, rfl⟩ := Prod.mk.inj he
    have hm : after.length + 1 ≤ (mark after).length + 1 :=
      Nat.add_le_add_right (length_le_mark after) 1
    unfold writtenAssignment
    rw [writtenKey_mark hkey]
    dsimp only
    rw [(marksUpTo _).1 hm hw hr hk]
    rfl

theorem writtenLine_mark (h : writtenLine s = some (line, rest)) (hr : Stops rest)
    (hk : ∀ p ∈ line.parts, p.keepsStep = true) :
    writtenLine (mark s) = some (line.respell markScalar, mark rest) := by
  by_cases hs : ∃ t, s = '[' :: t
  · obtain ⟨t, rfl⟩ := hs
    rw [mark_open (by simp)]
    exact writtenHeader_mark h
  · have hs' : ∀ t, s ≠ '[' :: t := fun t h => hs ⟨t, h⟩
    rw [writtenLine.eq_2 s hs'] at h
    rw [writtenLine.eq_2 _ (not_open_mark (by decide) hs')]
    exact writtenAssignment_mark h hr hk

/-- Whether a character starts neither a blank nor a comment. -/
def StartsLine (c : Char) : Prop :=
  ¬(Quoted.isSpace c || Quoted.isNewline c) = true ∧ c ≠ '#'

theorem linesUpTo_line (n : Nat) (hc : StartsLine c) (s : List Char) :
    linesUpTo (n + 1) (c :: s) = (writtenLine (c :: s)).bind fun q =>
      (lineEnd? q.2).bind fun rest => (linesUpTo n rest).map (q.1 :: ·) := by
  rw [linesUpTo, if_neg hc.1, if_neg hc.2]
  cases writtenLine (c :: s) with
  | none => rfl
  | some q =>
    rw [Option.bind_some]
    cases h : lineEnd? q.2 <;> simp [h]

theorem linesUpTo_mark (hm : n ≤ m) (h : linesUpTo n s = some d) (hk : d.keepsStep = true) :
    linesUpTo m (mark s) = some d.marked := by
  induction n generalizing m s d with
  | zero =>
    rw [linesUpTo] at h
    cases h
  | succ n ih =>
    obtain ⟨m, rfl⟩ := Nat.exists_eq_add_of_le' hm
    have hm' : n ≤ m + n := Nat.le_add_left n m
    rw [← Nat.add_assoc]
    cases s with
    | nil =>
      obtain rfl := Option.some.inj h
      rw [FloatLiteral.mark_nil]
      rfl
    | cons c s =>
      by_cases hb : (Quoted.isSpace c || Quoted.isNewline c) = true
      · rw [linesUpTo, if_pos hb] at h
        obtain ⟨hd, hn, hq, hs⟩ := (Bool.or_eq_true_iff.1 hb).elim
          FloatLiteral.isSpace_delimiter FloatLiteral.isNewline_delimiter
        rw [FloatLiteral.mark_delimiter hd hn hq hs, linesUpTo, if_pos hb]
        exact ih hm' h hk
      · by_cases hn : c = '#'
        · rw [linesUpTo, if_neg hb, if_pos hn] at h
          rw [hn, FloatLiteral.mark_comment, linesUpTo, if_neg (hn ▸ hb), if_pos rfl,
            FloatLiteral.dropLine_mark]
          exact ih hm' h hk
        · rw [linesUpTo_line n ⟨hb, hn⟩] at h
          obtain ⟨⟨line, after⟩, hline, h⟩ := Option.bind_eq_some_iff.1 h
          obtain ⟨next, hend, h⟩ := Option.bind_eq_some_iff.1 h
          obtain ⟨lines, hlines, rfl⟩ := Option.map_eq_some_iff.1 h
          simp only [Document.keepsStep, Document.parts, List.flatMap_cons, List.all_append,
            Bool.and_eq_true] at hk
          have hmark := writtenLine_mark hline (stops_of_lineEnd? hend)
            (List.all_eq_true.1 hk.1)
          -- marking does not turn the start of a line into a blank or a comment
          obtain ⟨e, u, he, hce⟩ := FloatLiteral.mark_head c s
          have hstart : StartsLine e := by
            rcases hce with rfl | ⟨-, rfl⟩
            · exact ⟨hb, hn⟩
            · exact ⟨by decide, by decide⟩
          rw [he] at hmark ⊢
          rw [linesUpTo_line _ hstart, hmark, Option.bind_some, FloatLiteral.lineEnd?_mark, hend,
            Option.map_some, Option.bind_some, ih hm' hlines hk.2]
          rfl

/-- A marked text writes the marked document. -/
theorem document?_mark (h : document? s = some d) (hk : d.keepsStep = true) :
    document? (mark s) = some d.marked :=
  linesUpTo_mark (Nat.add_le_add_right (length_le_mark s) 1) h hk

end WakeConfig.Toml
