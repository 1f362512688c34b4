import WakeConfig.Proofs.Json.Scalars

/-!
# Written values read back

A text that writes a value, with blank characters wherever the grammar allows them, is read as that
value: `read?_of_writtenAs`. Both written forms are such texts, so no two values have one form.
-/

namespace WakeConfig.Json

open WakeConfig.Json.Reader (isBlank dropBlanks EndsNumber valueUpTo itemsUpTo membersUpTo)

/-! ## Texts of a value -/

/-- A text of blank characters only. -/
def AllBlank (s : List Char) : Prop := ∀ c ∈ s, isBlank c = true

/-- A text with a property, with blank characters around it. -/
def Padded (P : List Char → Prop) (s : List Char) : Prop :=
  ∃ before text after, AllBlank before ∧ P text ∧ AllBlank after ∧ s = before ++ (text ++ after)

mutual
/-- A text writes a value. -/
def WrittenAs : Json → List Char → Prop
  | null, s => s = "null".toList
  | bool b, s => s = boolChars b
  | number d, s => s = d.chars
  | string t, s => s = quote t.toList
  | array items, s => ∃ inner, ItemsWrittenAs items inner ∧ s = '[' :: (inner ++ [']'])
  | object members, s => ∃ inner, MembersWrittenAs members inner ∧
      s = '\x7b' :: (inner ++ ['\x7d'])

/-- A text writes items with commas between them. -/
def ItemsWrittenAs : List Json → List Char → Prop
  | [], s => AllBlank s
  | [item], s => Padded (fun text => WrittenAs item text) s
  | item :: items, s => ∃ first others, Padded (fun text => WrittenAs item text) first ∧
      ItemsWrittenAs items others ∧ s = first ++ ',' :: others

/-- A text writes members with commas between them. -/
def MembersWrittenAs : List (String × Json) → List Char → Prop
  | [], s => AllBlank s
  | [(name, v)], s => ∃ key value, Padded (· = quote name.toList) key ∧
      Padded (fun text => WrittenAs v text) value ∧ s = key ++ ':' :: value
  | (name, v) :: members, s => ∃ key value others, Padded (· = quote name.toList) key ∧
      Padded (fun text => WrittenAs v text) value ∧ MembersWrittenAs members others ∧
      s = key ++ ':' :: (value ++ ',' :: others)
end

variable {P : List Char → Prop} {v : Json} {s rest : List Char} {fuel : Nat}

/-! ## What a text starts with -/

/-- A text starts with a character that is neither blank nor a bracket at an end. -/
def Starts (s : List Char) : Prop :=
  ∃ c t, s = c :: t ∧ isBlank c = false ∧ c ≠ ']' ∧ c ≠ '\x7d'

theorem digit_or_minus_of_number {c : Char} {d : Decimal}
    (h : Reader.number (c :: s) = some (d, rest)) : Text.isDigit c = true ∨ c = '-' := by
  by_cases hm : c = '-'
  · exact .inr hm
  · refine .inl ?_
    rw [Reader.number_of_head? (by simpa using hm)] at h
    by_contra hc
    have hnone : Reader.magnitude (c :: s) = none := by
      simp [Reader.magnitude, Reader.whole, Reader.digits, hc]
    rw [hnone] at h
    cases h

theorem endsNumber_nil : EndsNumber [] := fun _ hc => nomatch hc

theorem exists_chars_eq_cons (d : Decimal) :
    ∃ c t, d.chars = c :: t ∧ (Text.isDigit c = true ∨ c = '-') := by
  have hread := Reader.number_chars d endsNumber_nil
  rw [List.append_nil] at hread
  cases hchars : d.chars with
  | nil =>
    rw [hchars] at hread
    cases hread
  | cons c t =>
    rw [hchars] at hread
    exact ⟨c, t, rfl, digit_or_minus_of_number hread⟩

theorem WrittenAs.starts (h : v.WrittenAs s) : Starts s := by
  cases v with
  | null =>
    obtain rfl : s = "null".toList := by simpa only [WrittenAs] using h
    exact ⟨'n', "ull".toList, rfl, rfl, by decide, by decide⟩
  | bool b =>
    obtain rfl : s = boolChars b := by simpa only [WrittenAs] using h
    cases b
    · exact ⟨'f', "alse".toList, rfl, rfl, by decide, by decide⟩
    · exact ⟨'t', "rue".toList, rfl, rfl, by decide, by decide⟩
  | number d =>
    obtain rfl : s = d.chars := by simpa only [WrittenAs] using h
    obtain ⟨c, t, hc, hdigit | rfl⟩ := exists_chars_eq_cons d
    · refine ⟨c, t, hc, ?_, ?_, ?_⟩
      · cases hblank : isBlank c with
        | false => rfl
        | true =>
          simp only [isBlank, Bool.or_eq_true, beq_iff_eq] at hblank
          rcases hblank with ((rfl | rfl) | rfl) | rfl <;> cases hdigit
      · rintro rfl
        cases hdigit
      · rintro rfl
        cases hdigit
    · exact ⟨'-', t, hc, rfl, by decide, by decide⟩
  | string t =>
    obtain rfl : s = quote t.toList := by simpa only [WrittenAs] using h
    exact ⟨'"', _, rfl, rfl, by decide, by decide⟩
  | array items =>
    obtain ⟨inner, -, rfl⟩ := by simpa only [WrittenAs] using h
    exact ⟨'[', _, rfl, rfl, by decide, by decide⟩
  | object members =>
    obtain ⟨inner, -, rfl⟩ := by simpa only [WrittenAs] using h
    exact ⟨'\x7b', _, rfl, rfl, by decide, by decide⟩

/-! ## Blank characters -/

theorem dropBlanks_append (h : AllBlank s) (rest : List Char) :
    dropBlanks (s ++ rest) = dropBlanks rest := List.dropWhile_append_of_pos h

theorem Starts.dropBlanks (h : Starts s) (rest : List Char) :
    dropBlanks (s ++ rest) = s ++ rest := by
  obtain ⟨c, t, rfl, hc, -⟩ := h
  rw [List.cons_append, Reader.dropBlanks, List.dropWhile_cons_of_neg (by simp [hc])]

/-- The blank characters in front of a text are dropped, and those behind it are left. -/
theorem Padded.exists_dropBlanks (h : Padded P s) (hP : ∀ text, P text → Starts text) :
    ∃ text after, P text ∧ AllBlank after ∧ text.length ≤ s.length ∧
      ∀ rest, dropBlanks (s ++ rest) = text ++ (after ++ rest) := by
  obtain ⟨before, text, after, hbefore, htext, hafter, rfl⟩ := h
  refine ⟨text, after, htext, hafter, ?_, fun rest => ?_⟩
  · simp only [List.length_append]
    omega
  · rw [List.append_assoc, dropBlanks_append hbefore, List.append_assoc,
      (hP text htext).dropBlanks]

/-! ## Reading values -/

/-- A text behind a value: nothing, or one that starts with a blank character, a comma or a closing
bracket. -/
def EndsValue (rest : List Char) : Prop :=
  ∀ c ∈ rest.head?, isBlank c = true ∨ c = ',' ∨ c = ']' ∨ c = '\x7d'

theorem EndsValue.endsNumber (h : EndsValue rest) : EndsNumber rest := by
  intro c hc
  rcases h c hc with hblank | rfl | rfl | rfl
  · simp only [isBlank, Bool.or_eq_true, beq_iff_eq] at hblank
    rcases hblank with ((rfl | rfl) | rfl) | rfl <;> exact ⟨rfl, by decide, by decide, by decide⟩
  all_goals exact ⟨rfl, by decide, by decide, by decide⟩

theorem endsValue_append {after : List Char} (ha : AllBlank after) (hrest : EndsValue rest) :
    EndsValue (after ++ rest) := by
  cases after with
  | nil => exact hrest
  | cons c after =>
    intro x hx
    cases hx
    exact .inl (ha c List.mem_cons_self)

theorem valueUpTo_number {c : Char} (hc : Text.isDigit c = true ∨ c = '-') (fuel : Nat)
    (s : List Char) :
    valueUpTo (fuel + 1) (c :: s)
      = (Reader.number (c :: s)).map fun (d, rest) => (.number d, rest) := by
  rw [Reader.valueUpTo.eq_def]
  dsimp only
  split
  all_goals first
    | rfl
    | (rename_i heq
       injection heq with hcons
       subst hcons
       rcases hc with hc | hc <;> cases hc)

theorem valueUpTo_items (h : (dropBlanks s).head? ≠ some ']') :
    valueUpTo (fuel + 1) ('[' :: s)
      = (itemsUpTo fuel (dropBlanks s)).map fun (items, rest) => (.array items, rest) := by
  rw [valueUpTo]
  split
  · rename_i heq
    rw [heq] at h
    exact absurd rfl h
  · rfl

theorem valueUpTo_members (h : (dropBlanks s).head? ≠ some '\x7d') :
    valueUpTo (fuel + 1) ('\x7b' :: s)
      = (membersUpTo fuel (dropBlanks s)).map fun (members, rest) => (.object members, rest) := by
  rw [valueUpTo]
  split
  · rename_i heq
    rw [heq] at h
    exact absurd rfl h
  · rfl

/-- The name of a member is read up to behind its colon. -/
theorem name_quote (name : String) {gap : List Char} (hgap : AllBlank gap) (rest : List Char) :
    Reader.name (quote name.toList ++ (gap ++ ':' :: rest)) = some (name, rest) := by
  have hname : quote name.toList ++ (gap ++ ':' :: rest)
      = '"' :: (name.toList.flatMap escapeChar ++ '"' :: (gap ++ ':' :: rest)) := by
    simp [quote]
  rw [hname, Reader.name, Reader.string_quote, String.ofList_toList]
  dsimp only
  rw [dropBlanks_append hgap]
  rfl

/-! ## The first of a sequence -/

/-- What a text of items starts with, and what follows it. -/
theorem ItemsWrittenAs.exists_first {item : Json} {items : List Json}
    (h : ItemsWrittenAs (item :: items) s) :
    ∃ first others, Padded (fun text => item.WrittenAs text) first ∧ s = first ++ others ∧
      (items = [] ∧ others = [] ∨
        items ≠ [] ∧ ∃ more, ItemsWrittenAs items more ∧ others = ',' :: more) := by
  cases items with
  | nil =>
    rw [ItemsWrittenAs] at h
    exact ⟨s, [], h, (List.append_nil s).symm, .inl ⟨rfl, rfl⟩⟩
  | cons next items =>
    rw [ItemsWrittenAs] at h
    · obtain ⟨first, others, hfirst, hothers, rfl⟩ := h
      exact ⟨first, _, hfirst, rfl, .inr ⟨List.cons_ne_nil next items, others, hothers, rfl⟩⟩
    · exact fun h => nomatch h

/-- What a text of members starts with, and what follows it. -/
theorem MembersWrittenAs.exists_first {name : String} {v : Json} {members : List (String × Json)}
    (h : MembersWrittenAs ((name, v) :: members) s) :
    ∃ key value others, Padded (· = quote name.toList) key ∧
      Padded (fun text => v.WrittenAs text) value ∧ s = key ++ ':' :: (value ++ others) ∧
      (members = [] ∧ others = [] ∨
        members ≠ [] ∧ ∃ more, MembersWrittenAs members more ∧ others = ',' :: more) := by
  cases members with
  | nil =>
    rw [MembersWrittenAs] at h
    obtain ⟨key, value, hkey, hvalue, rfl⟩ := h
    exact ⟨key, value, [], hkey, hvalue, by rw [List.append_nil], .inl ⟨rfl, rfl⟩⟩
  | cons next members =>
    rw [MembersWrittenAs] at h
    · obtain ⟨key, value, others, hkey, hvalue, hothers, rfl⟩ := h
      exact ⟨key, value, _, hkey, hvalue, rfl,
        .inr ⟨List.cons_ne_nil next members, others, hothers, rfl⟩⟩
    · exact fun h => nomatch h

theorem ItemsWrittenAs.head? {items : List Json} (hne : items ≠ []) (h : ItemsWrittenAs items s)
    (rest : List Char) : (dropBlanks (s ++ rest)).head? ≠ some ']' := by
  obtain ⟨item, items, rfl⟩ := List.exists_cons_of_ne_nil hne
  obtain ⟨first, others, hfirst, rfl, -⟩ := h.exists_first
  obtain ⟨text, after, htext, -, -, hdrop⟩ := hfirst.exists_dropBlanks fun _ h => h.starts
  obtain ⟨c, t, rfl, -, hc, -⟩ := htext.starts
  rw [List.append_assoc, hdrop]
  exact fun h => hc (Option.some.inj h)

theorem starts_quote (t : List Char) : Starts (quote t) :=
  ⟨'"', _, rfl, rfl, by decide, by decide⟩

theorem MembersWrittenAs.head? {members : List (String × Json)} (hne : members ≠ [])
    (h : MembersWrittenAs members s) (rest : List Char) :
    (dropBlanks (s ++ rest)).head? ≠ some '\x7d' := by
  obtain ⟨⟨name, v⟩, members, rfl⟩ := List.exists_cons_of_ne_nil hne
  obtain ⟨key, value, others, hkey, -, rfl, -⟩ := h.exists_first
  obtain ⟨text, after, rfl, -, -, hdrop⟩ := hkey.exists_dropBlanks fun _ h => h ▸ starts_quote _
  rw [List.append_assoc, hdrop]
  exact fun h => absurd (Option.some.inj h) (by decide)

/-! ## Reading back -/

mutual
/-- A text of a value is read as the value. -/
theorem valueUpTo_of_writtenAs : (v : Json) → {s rest : List Char} → {fuel : Nat} →
    v.WrittenAs s → s.length ≤ fuel → EndsValue rest →
    valueUpTo fuel (s ++ rest) = some (v, rest)
  | v, s, rest, 0, h, hfuel, hrest => by
    obtain ⟨c, t, rfl, -⟩ := h.starts
    cases hfuel
  | .null, s, rest, fuel + 1, h, hfuel, hrest => by
    obtain rfl : s = "null".toList := by simpa only [WrittenAs] using h
    rfl
  | .bool b, s, rest, fuel + 1, h, hfuel, hrest => by
    obtain rfl : s = boolChars b := by simpa only [WrittenAs] using h
    cases b <;> rfl
  | .number d, s, rest, fuel + 1, h, hfuel, hrest => by
    obtain rfl : s = d.chars := by simpa only [WrittenAs] using h
    obtain ⟨c, t, hchars, hc⟩ := exists_chars_eq_cons d
    have hread := Reader.number_chars d hrest.endsNumber
    rw [hchars, List.cons_append] at hread ⊢
    rw [valueUpTo_number hc, hread]
    rfl
  | .string t, s, rest, fuel + 1, h, hfuel, hrest => by
    obtain rfl : s = quote t.toList := by simpa only [WrittenAs] using h
    have hquote : quote t.toList ++ rest
        = '"' :: (t.toList.flatMap escapeChar ++ '"' :: rest) := by
      simp [quote]
    rw [hquote, valueUpTo, Reader.string_quote, String.ofList_toList]
    rfl
  | .array items, s, rest, fuel + 1, h, hfuel, hrest => by
    obtain ⟨inner, hinner, rfl⟩ := by simpa only [WrittenAs] using h
    have hs : '[' :: (inner ++ [']']) ++ rest = '[' :: (inner ++ ']' :: rest) := by simp
    rw [hs]
    by_cases hne : items = []
    · subst hne
      have hblank : AllBlank inner := by simpa only [ItemsWrittenAs] using hinner
      rw [valueUpTo, dropBlanks_append hblank]
      rfl
    · have hlength : inner.length + 1 ≤ fuel := by
        simp only [List.length_cons, List.length_append, List.length_nil] at hfuel
        omega
      rw [valueUpTo_items (hinner.head? hne _), itemsUpTo_of_writtenAs items hne hinner hlength]
      rfl
  | .object members, s, rest, fuel + 1, h, hfuel, hrest => by
    obtain ⟨inner, hinner, rfl⟩ := by simpa only [WrittenAs] using h
    have hs : '\x7b' :: (inner ++ ['\x7d']) ++ rest = '\x7b' :: (inner ++ '\x7d' :: rest) := by
      simp
    rw [hs]
    by_cases hne : members = []
    · subst hne
      have hblank : AllBlank inner := by simpa only [MembersWrittenAs] using hinner
      rw [valueUpTo, dropBlanks_append hblank]
      rfl
    · have hlength : inner.length + 1 ≤ fuel := by
        simp only [List.length_cons, List.length_append, List.length_nil] at hfuel
        omega
      rw [valueUpTo_members (hinner.head? hne _),
        membersUpTo_of_writtenAs members hne hinner hlength]
      rfl

/-- A text of items is read as the items. -/
theorem itemsUpTo_of_writtenAs : (items : List Json) → {s rest : List Char} → {fuel : Nat} →
    items ≠ [] → ItemsWrittenAs items s → s.length + 1 ≤ fuel →
    itemsUpTo fuel (dropBlanks (s ++ ']' :: rest)) = some (items, rest)
  | [], _, _, _, hne, _, _ => absurd rfl hne
  | item :: items, s, rest, fuel + 1, _, h, hfuel => by
    obtain ⟨first, others, hfirst, rfl, hothers⟩ := h.exists_first
    obtain ⟨text, after, htext, hafter, hlength, hdrop⟩ :=
      hfirst.exists_dropBlanks fun _ h => h.starts
    rw [List.length_append] at hfuel
    have hends : EndsValue (after ++ (others ++ ']' :: rest)) := by
      refine endsValue_append hafter ?_
      rcases hothers with ⟨-, rfl⟩ | ⟨-, more, -, rfl⟩
      · exact fun c hc => .inr (.inr (.inl (Option.some.inj hc).symm))
      · exact fun c hc => .inr (.inl (Option.some.inj hc).symm)
    rw [List.append_assoc, hdrop, itemsUpTo,
      valueUpTo_of_writtenAs item htext (by omega) hends]
    dsimp only
    rw [dropBlanks_append hafter]
    rcases hothers with ⟨rfl, rfl⟩ | ⟨hne, more, hmore, rfl⟩
    · rfl
    · rw [List.length_cons] at hfuel
      show (itemsUpTo fuel (dropBlanks (more ++ ']' :: rest))).map _ = _
      rw [itemsUpTo_of_writtenAs items hne hmore (by omega)]
      rfl

/-- A text of members is read as the members. -/
theorem membersUpTo_of_writtenAs : (members : List (String × Json)) → {s rest : List Char} →
    {fuel : Nat} → members ≠ [] → MembersWrittenAs members s → s.length + 1 ≤ fuel →
    membersUpTo fuel (dropBlanks (s ++ '\x7d' :: rest)) = some (members, rest)
  | [], _, _, _, hne, _, _ => absurd rfl hne
  | (name, v) :: members, s, rest, fuel + 1, _, h, hfuel => by
    obtain ⟨key, value, others, hkey, hvalue, rfl, hothers⟩ := h.exists_first
    obtain ⟨_, gap, rfl, hgap, -, hdropKey⟩ := hkey.exists_dropBlanks fun _ h => h ▸ starts_quote _
    obtain ⟨text, after, htext, hafter, hlength, hdrop⟩ :=
      hvalue.exists_dropBlanks fun _ h => h.starts
    rw [List.length_append, List.length_cons, List.length_append] at hfuel
    have hends : EndsValue (after ++ (others ++ '\x7d' :: rest)) := by
      refine endsValue_append hafter ?_
      rcases hothers with ⟨-, rfl⟩ | ⟨-, more, -, rfl⟩
      · exact fun c hc => .inr (.inr (.inr (Option.some.inj hc).symm))
      · exact fun c hc => .inr (.inl (Option.some.inj hc).symm)
    rw [List.append_assoc, hdropKey, List.cons_append, membersUpTo, name_quote name hgap]
    dsimp only
    rw [List.append_assoc, hdrop, valueUpTo_of_writtenAs v htext (by omega) hends]
    dsimp only
    rw [dropBlanks_append hafter]
    rcases hothers with ⟨rfl, rfl⟩ | ⟨hne, more, hmore, rfl⟩
    · rfl
    · rw [List.length_cons] at hfuel
      show (membersUpTo fuel (dropBlanks (more ++ '\x7d' :: rest))).map _ = _
      rw [membersUpTo_of_writtenAs members hne hmore (by omega)]
      rfl
end

theorem allBlank_nil : AllBlank [] := fun _ hc => nomatch hc

/-- **A text of a value with blank characters around it is read as that value.** -/
theorem read?_of_padded (h : Padded (fun text => v.WrittenAs text) s) : read? s = some v := by
  obtain ⟨text, after, htext, hafter, hlength, hdrop⟩ := h.exists_dropBlanks fun _ h => h.starts
  have hend : EndsValue after := by
    have hnone : EndsValue [] := fun c hc => nomatch hc
    simpa using endsValue_append hafter hnone
  have hfront := hdrop []
  have hbehind := dropBlanks_append hafter []
  rw [List.append_nil] at hfront hbehind
  rw [List.append_nil] at hfront
  rw [read?, hfront, valueUpTo_of_writtenAs v htext (Nat.le_succ_of_le hlength) hend]
  dsimp only
  rw [hbehind]
  rfl

/-- A text stands by itself, without blank characters around it. -/
theorem padded_self (h : P s) : Padded P s :=
  ⟨[], s, [], allBlank_nil, h, allBlank_nil, by simp⟩

/-- **A text of a value is read as that value.** -/
theorem read?_of_writtenAs (h : v.WrittenAs s) : read? s = some v :=
  read?_of_padded (padded_self h)

/-! ## The two written forms -/

theorem allBlank_lineBreak (level : Nat) : AllBlank (lineBreak level) := by
  intro c hc
  rcases List.mem_cons.1 hc with rfl | hc
  · rfl
  · rw [(List.mem_replicate.1 hc).2]
    rfl

mutual
/-- The indented form is a text of the value. -/
theorem writtenAs_indentedAt : (v : Json) → (level : Nat) → v.WrittenAs (indentedAt level v)
  | .null, level => by simp only [WrittenAs, indentedAt]
  | .bool b, level => by simp only [WrittenAs, indentedAt]
  | .number d, level => by simp only [WrittenAs, indentedAt]
  | .string t, level => by simp only [WrittenAs, indentedAt]
  | .array [], level => by
    rw [WrittenAs, indentedAt]
    exact ⟨[], by rw [ItemsWrittenAs]; exact allBlank_nil, rfl⟩
  | .array (item :: items), level => by
    rw [WrittenAs, indentedAt]
    exact ⟨_, itemsWrittenAs_indentedItems (item :: items) (List.cons_ne_nil item items) (level + 1)
      (allBlank_lineBreak level), rfl⟩
  | .object [], level => by
    rw [WrittenAs, indentedAt]
    exact ⟨[], by rw [MembersWrittenAs]; exact allBlank_nil, rfl⟩
  | .object (member :: members), level => by
    rw [WrittenAs, indentedAt]
    exact ⟨_, membersWrittenAs_indentedMembers (member :: members)
      (List.cons_ne_nil member members) (level + 1) (allBlank_lineBreak level), rfl⟩

/-- The lines of items, and blank characters behind them, are a text of the items. -/
theorem itemsWrittenAs_indentedItems : (items : List Json) → items ≠ [] → (level : Nat) →
    {gap : List Char} → AllBlank gap → ItemsWrittenAs items (indentedItems level items ++ gap)
  | [], hne, _, _, _ => absurd rfl hne
  | [item], _, level, gap, hgap => by
    rw [ItemsWrittenAs, indentedItems]
    exact ⟨_, _, gap, allBlank_lineBreak level, writtenAs_indentedAt item level, hgap,
      List.append_assoc _ _ _⟩
  | item :: next :: items, _, level, gap, hgap => by
    rw [ItemsWrittenAs, indentedItems]
    · refine ⟨_, _, ⟨_, _, [], allBlank_lineBreak level, writtenAs_indentedAt item level,
        allBlank_nil, rfl⟩, itemsWrittenAs_indentedItems (next :: items)
          (List.cons_ne_nil next items) level hgap, ?_⟩
      simp
    all_goals exact fun h => nomatch h

/-- The lines of members, and blank characters behind them, are a text of the members. -/
theorem membersWrittenAs_indentedMembers : (members : List (String × Json)) → members ≠ [] →
    (level : Nat) → {gap : List Char} → AllBlank gap →
    MembersWrittenAs members (indentedMembers level members ++ gap)
  | [], hne, _, _, _ => absurd rfl hne
  | [(name, v)], _, level, gap, hgap => by
    rw [MembersWrittenAs, indentedMembers]
    refine ⟨_, _, ⟨_, _, [], allBlank_lineBreak level, rfl, allBlank_nil, rfl⟩,
      ⟨[' '], _, gap, ?_, writtenAs_indentedAt v level, hgap, rfl⟩, ?_⟩
    · exact fun c hc => by rw [List.mem_singleton.1 hc]; rfl
    · simp
  | (name, v) :: next :: members, _, level, gap, hgap => by
    rw [MembersWrittenAs, indentedMembers]
    · refine ⟨_, _, _, ⟨_, _, [], allBlank_lineBreak level, rfl, allBlank_nil, rfl⟩,
        ⟨[' '], _, [], ?_, writtenAs_indentedAt v level, allBlank_nil, rfl⟩,
        membersWrittenAs_indentedMembers (next :: members) (List.cons_ne_nil next members) level
          hgap, ?_⟩
      · exact fun c hc => by rw [List.mem_singleton.1 hc]; rfl
      · simp
    all_goals exact fun h => nomatch h
end

/-- **The indented form of a value is read as that value.** -/
theorem read?_indented (v : Json) : read? v.indented = some v :=
  read?_of_writtenAs (writtenAs_indentedAt v 0)

mutual
/-- The compact form is a text of the value. -/
theorem writtenAs_compact : (v : Json) → v.WrittenAs v.compact
  | .null => by simp only [WrittenAs, compact]
  | .bool b => by simp only [WrittenAs, compact]
  | .number d => by simp only [WrittenAs, compact]
  | .string t => by simp only [WrittenAs, compact]
  | .array items => by
    rw [WrittenAs, compact]
    exact ⟨_, itemsWrittenAs_compactItems items, rfl⟩
  | .object members => by
    rw [WrittenAs, compact]
    exact ⟨_, membersWrittenAs_compactMembers members, rfl⟩

/-- The items of the compact form are a text of the items. -/
theorem itemsWrittenAs_compactItems :
    (items : List Json) → ItemsWrittenAs items (compactItems items)
  | [] => by
    rw [ItemsWrittenAs, compactItems]
    exact allBlank_nil
  | [item] => by
    rw [ItemsWrittenAs, compactItems]
    exact padded_self (writtenAs_compact item)
  | item :: next :: items => by
    rw [ItemsWrittenAs, compactItems]
    · exact ⟨_, _, padded_self (writtenAs_compact item),
        itemsWrittenAs_compactItems (next :: items), rfl⟩
    all_goals exact fun h => nomatch h

/-- The members of the compact form are a text of the members. -/
theorem membersWrittenAs_compactMembers :
    (members : List (String × Json)) → MembersWrittenAs members (compactMembers members)
  | [] => by
    rw [MembersWrittenAs, compactMembers]
    exact allBlank_nil
  | [(name, v)] => by
    rw [MembersWrittenAs, compactMembers]
    exact ⟨_, _, padded_self rfl, padded_self (writtenAs_compact v), rfl⟩
  | (name, v) :: next :: members => by
    rw [MembersWrittenAs, compactMembers]
    · exact ⟨_, _, _, padded_self rfl, padded_self (writtenAs_compact v),
        membersWrittenAs_compactMembers (next :: members), rfl⟩
    all_goals exact fun h => nomatch h
end

end WakeConfig.Json
