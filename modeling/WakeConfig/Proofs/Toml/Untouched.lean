import WakeConfig.Proofs.Toml.MarkedTables

/-!
# What marking touches

Marking changes floats, may respell a key, and can lose its way behind a date. What it touches in a
document is in the table of the document at the end, since no operation takes anything out of a
table (`Document.isTouched_of_run`). So a document whose table holds nothing of the kind has no key
that can change, no uneven array and no date (`Document.steady_of_not_isTouched`).
-/

namespace WakeConfig.Toml

variable {v : Value} {t t' : Table} {key : String} {path names : List String} {origin : Origin}
  {p q : Prop} {φ : Option Value → Option Value} {f : Table → Option Table} {w : Written}
  {line : Line} {d : Document} {r r' : Progress}

/-! ## Touched values -/

/-- Marking touches something in a value: a float, a date, or a key that may be respelled. -/
inductive Value.IsTouched : Value → Prop where
  | float (token : String) : IsTouched (.float token)
  | datetime : IsTouched .datetime
  | item {v : Value} {items : List Value} (hv : v ∈ items) (h : IsTouched v) :
      IsTouched (.array items)
  | element {t : Table} {elements : List Table} (ht : t ∈ elements)
      (h : IsTouched (.table .passage t)) : IsTouched (.tables elements)
  | name {origin : Origin} {t : Table} {key : String} {v : Value} (hv : t.get? key = some v)
      (hk : mayChange key = true) : IsTouched (.table origin t)
  | entry {origin : Origin} {t : Table} {key : String} {v : Value} (hv : t.get? key = some v)
      (h : IsTouched v) : IsTouched (.table origin t)

/-- Marking touches something in a table. -/
def Table.IsTouched (t : Table) : Prop := (Value.table .passage t).IsTouched

theorem Value.isTouched_table : (Value.table origin t).IsTouched ↔ t.IsTouched := by
  unfold Table.IsTouched
  constructor
  · intro h
    cases h with
    | name hv hk => exact .name hv hk
    | entry hv h => exact .entry hv h
  · intro h
    cases h with
    | name hv hk => exact .name hv hk
    | entry hv h => exact .entry hv h

theorem Value.isTouched_tables {elements : List Table} :
    (Value.tables elements).IsTouched ↔ ∃ t ∈ elements, t.IsTouched := by
  constructor
  · intro h
    cases h with
    | element ht h => exact ⟨_, ht, h⟩
  · rintro ⟨t, ht, h⟩
    exact .element ht h

theorem Value.isTouched_array {items : List Value} :
    (Value.array items).IsTouched ↔ ∃ v ∈ items, v.IsTouched := by
  constructor
  · intro h
    cases h with
    | item hv h => exact ⟨_, hv, h⟩
  · rintro ⟨v, hv, h⟩
    exact .item hv h

theorem Table.isTouched_iff :
    t.IsTouched ↔ ∃ key v, t.get? key = some v ∧ (mayChange key = true ∨ v.IsTouched) := by
  constructor
  · intro h
    cases h with
    | name hv hk => exact ⟨_, _, hv, .inl hk⟩
    | entry hv h => exact ⟨_, _, hv, .inr h⟩
  · rintro ⟨key, v, hv, hk | h⟩
    · exact .name hv hk
    · exact .entry hv h

/-! ## Operations -/

namespace Table

/-- The new value is touched if the old one is, and in any case if `p` holds. -/
def TouchesValue (p : Prop) (φ : Option Value → Option Value) : Prop :=
  ∀ x v, φ x = some v → (p ∨ ∃ w ∈ x, w.IsTouched) → v.IsTouched

/-- The new table is touched if the old one is, and in any case if `p` holds. -/
def Touches (p : Prop) (f : Table → Option Table) : Prop :=
  ∀ t t', f t = some t' → (p ∨ t.IsTouched) → t'.IsTouched

theorem alter_touches (h : TouchesValue p φ) (key : String) :
    Touches (mayChange key = true ∨ p) (alter φ key) := by
  intro t t' ht htouched
  obtain ⟨v, hv, rfl⟩ := Option.map_eq_some_iff.1 ht
  have hself : (t.put key v).get? key = some v := by rw [get?_put, if_pos rfl]
  rcases htouched with (hk | hp) | htouched
  · exact .name hself hk
  · exact .entry hself (h _ v hv (.inl hp))
  · obtain ⟨other, w, hw, hother⟩ := isTouched_iff.1 htouched
    by_cases hkey : other = key
    · -- the old value is gone, but the new one is touched where the old one was
      subst hkey
      rcases hother with hk | hw'
      · exact .name hself hk
      · exact .entry hself (h _ v hv (.inr ⟨w, hw, hw'⟩))
    · have hget : (t.put key v).get? other = some w := by rw [get?_put, if_neg hkey, hw]
      exact isTouched_iff.2 ⟨other, w, hget, hother⟩

/-- What an operation makes of a new table. -/
theorem Touches.of_nil (h : Touches p f) (ht : f [] = some t)
    (hp : p ∨ ∃ w ∈ none, Value.IsTouched w) : t.IsTouched := by
  rcases hp with hp | ⟨w, hw, -⟩
  · exact h _ _ ht (.inl hp)
  · cases hw

theorem inside_touches (h : Touches p f) : TouchesValue p (inside f) := by
  intro x v hv hx
  cases x with
  | none =>
    obtain ⟨t, ht, rfl⟩ := Option.map_eq_some_iff.1 hv
    exact h.of_nil ht hx
  | some w =>
    simp only [Option.mem_def, Option.some.injEq, exists_eq_left'] at hx
    cases w with
    | table origin entries =>
      rw [inside] at hv
      split at hv
      · cases hv
      · obtain ⟨t, ht, rfl⟩ := Option.map_eq_some_iff.1 hv
        rw [Value.isTouched_table] at hx ⊢
        exact h _ _ ht hx
    | tables elements =>
      rw [inside] at hv
      split at hv
      · cases hv
      · rename_i last hlast
        obtain ⟨t, ht, rfl⟩ := Option.map_eq_some_iff.1 hv
        obtain ⟨others, rfl⟩ := List.getLast?_eq_some_iff.1 hlast
        rw [List.dropLast_concat]
        simp only [Value.isTouched_tables, List.mem_append, List.mem_singleton, or_and_right,
          exists_or, exists_eq_left] at hx ⊢
        rcases hx with hp | hothers | hlast
        · exact .inr (h _ _ ht (.inl hp))
        · exact .inl hothers
        · exact .inr (h _ _ ht (.inr hlast))
    | _ => cases hv

theorem insidePassage_touches (h : Touches p f) : TouchesValue p (insidePassage f) := by
  intro x v hv hx
  cases x with
  | none =>
    obtain ⟨t, ht, rfl⟩ := Option.map_eq_some_iff.1 hv
    exact h.of_nil ht hx
  | some w =>
    simp only [Option.mem_def, Option.some.injEq, exists_eq_left'] at hx
    cases w with
    | table origin entries =>
      cases origin with
      | passage =>
        obtain ⟨t, ht, rfl⟩ := Option.map_eq_some_iff.1 hv
        exact h _ _ ht hx
      | _ => cases hv
    | _ => cases hv

theorem given_touches (v : Value) : TouchesValue v.IsTouched (given v) := by
  intro x w hw hx
  cases x with
  | none =>
    obtain rfl := Option.some.inj hw
    rcases hx with hx | ⟨w, hw, -⟩
    · exact hx
    · cases hw
  | some x => cases hw

theorem opened_touches : TouchesValue False opened := by
  intro x v hv hx
  rcases hx with hx | ⟨w, rfl, hw⟩
  · exact hx.elim
  · cases w with
    | table origin entries =>
      cases origin with
      | passage =>
        obtain rfl := Option.some.inj hv
        exact Value.isTouched_table.2 hw
      | _ => cases hv
    | _ => cases hv

theorem extended_touches : TouchesValue False extended := by
  intro x v hv hx
  rcases hx with hx | ⟨w, rfl, hw⟩
  · exact hx.elim
  · cases w with
    | tables elements =>
      obtain rfl := Option.some.inj hv
      obtain ⟨t, ht, htouched⟩ := Value.isTouched_tables.1 hw
      exact .element (List.mem_append_left _ ht) htouched
    | _ => cases hv

/-! ## Paths -/

theorem Touches.mono (h : Touches q f) (hpq : p → q) : Touches p f :=
  fun t t' ht hp => h t t' ht (hp.imp_left hpq)

theorem change_touches (h : Touches p f) (path : List String) :
    Touches (path.any mayChange = true ∨ p) (change f path) := by
  induction path with
  | nil => exact h.mono (by simp)
  | cons key path ih =>
    intro t t' ht hp
    rw [change_cons] at ht
    refine (alter_touches (inside_touches ih) key).mono ?_ t t' ht hp
    rw [List.any_cons, Bool.or_eq_true, or_assoc]
    exact id

theorem assign_touches (v : Value) (names : List String) :
    Touches (names.any mayChange = true ∨ v.IsTouched) (assign v names) := by
  induction names with
  | nil =>
    intro t t' ht
    cases ht
  | cons key names ih =>
    intro t t' ht hp
    rw [List.any_cons, Bool.or_eq_true] at hp
    by_cases hn : names = []
    · subst hn
      rw [assign_last] at ht
      refine (alter_touches (given_touches v) key).mono ?_ t t' ht hp
      simp
    · rw [assign_cons v key hn] at ht
      refine (alter_touches (insidePassage_touches ih) key).mono ?_ t t' ht hp
      rw [or_assoc]
      exact id

theorem changeAt_touches {add : String → Table → Option Table} (h : TouchesValue False φ)
    (ha : ∀ key t, add key t = t.alter φ key) (names : List String) :
    Touches (names.any mayChange = true) (changeAt add names) := by
  induction names with
  | nil =>
    intro t t' ht
    cases ht
  | cons key names ih =>
    intro t t' ht hp
    rw [List.any_cons, Bool.or_eq_true] at hp
    by_cases hn : names = []
    · subst hn
      rw [changeAt_last, ha] at ht
      refine (alter_touches h key).mono ?_ t t' ht hp
      simp
    · rw [changeAt_cons add key hn] at ht
      exact alter_touches (inside_touches ih) key t t' ht hp

end Table

/-! ## Documents -/

/-- Marking touches a value itself: a float or a date, or a key of a table. -/
def Written.isTouched : Written → Bool
  | .scalar _ (.float _) => true
  | .scalar _ .datetime => true
  | .table entries => entries.any fun entry => !entry.1.isFixed
  | _ => false

/-- Marking touches a key in a line or something in its value. -/
def Line.isTouched : Line → Bool
  | header key => !key.isFixed
  | element key => !key.isFixed
  | entry key w => !key.isFixed || w.parts.any Written.isTouched

theorem Key.not_isFixed {key : Key} : (!key.isFixed) = key.names.any mayChange := by
  rw [Key.isFixed, Bool.not_not]

mutual
theorem Written.isTouched_of_value? {v : Value} (w : Written) (h : w.value? = some v)
    (ht : w.parts.any Written.isTouched = true) : v.IsTouched := by
  cases w with
  | string text => cases ht
  | scalar src x =>
    obtain rfl := Option.some.inj h
    cases x with
    | float token => exact .float token
    | datetime => exact .datetime
    | _ => cases ht
  | array items =>
    obtain ⟨vs, hvs, rfl⟩ := Option.map_eq_some_iff.1 h
    obtain ⟨-, hvs⟩ := (itemValues?_eq_some_iff _ _).1 hvs
    have harray : (Written.array items).isTouched = false := rfl
    rw [Written.parts, List.any_cons, harray, Bool.false_or] at ht
    exact Value.isTouched_array.2 (isTouched_of_eachValue? items hvs ht)
  | table entries =>
    obtain ⟨t, ht', rfl⟩ := Option.map_eq_some_iff.1 h
    rw [Written.parts, List.any_cons, Bool.or_eq_true] at ht
    exact Value.isTouched_table.2 (isTouched_of_entryTable? entries ht' (.inl ht))

theorem isTouched_of_eachValue? {vs : List Value} (items : List Written)
    (h : eachValue? items = some vs) (ht : (itemParts items).any Written.isTouched = true) :
    ∃ v ∈ vs, v.IsTouched := by
  cases items with
  | nil => cases ht
  | cons item items =>
    obtain ⟨v, hv, h⟩ := Option.bind_eq_some_iff.1 h
    obtain ⟨vs, hvs, rfl⟩ := Option.map_eq_some_iff.1 h
    rw [itemParts, List.any_append, Bool.or_eq_true] at ht
    rcases ht with ht | ht
    · exact ⟨v, List.mem_cons_self, Written.isTouched_of_value? item hv ht⟩
    · obtain ⟨x, hx, htouched⟩ := isTouched_of_eachValue? items hvs ht
      exact ⟨x, List.mem_cons_of_mem _ hx, htouched⟩

theorem isTouched_of_entryTable? {t t' : Table} (entries : List (Key × Written))
    (h : entryTable? t entries = some t')
    (ht : ((Written.table entries).isTouched = true ∨
      (entryParts entries).any Written.isTouched = true) ∨ t.IsTouched) : t'.IsTouched := by
  cases entries with
  | nil =>
    obtain rfl := Option.some.inj h
    rcases ht with (ht | ht) | ht
    · cases ht
    · cases ht
    · exact ht
  | cons entry entries =>
    obtain ⟨key, w⟩ := entry
    rw [entryTable?_cons] at h
    obtain ⟨v, hv, h⟩ := Option.bind_eq_some_iff.1 h
    obtain ⟨s, hs, h⟩ := Option.bind_eq_some_iff.1 h
    have hassign := Table.assign_touches v key.names t s hs
    rw [Written.isTouched, List.any_cons, Bool.or_eq_true, Key.not_isFixed, entryParts,
      List.any_append, Bool.or_eq_true] at ht
    refine isTouched_of_entryTable? entries h ?_
    rcases ht with ((hk | hkeys) | (hw | hentries)) | ht
    · exact .inr (hassign (.inl (.inl hk)))
    · exact .inl (.inl hkeys)
    · exact .inr (hassign (.inl (.inr (Written.isTouched_of_value? w hv hw))))
    · exact .inl (.inr hentries)
    · exact .inr (hassign (.inr ht))
end

/-- A line leaves a table touched if it was, or if marking touches something in the line. -/
theorem Line.isTouched_of_apply (h : line.apply r = some r')
    (ht : line.isTouched = true ∨ r.root.IsTouched) : r'.root.IsTouched := by
  cases line with
  | header key =>
    rw [Line.apply, Progress.enter_eq] at h
    obtain ⟨t, htable, rfl⟩ := Option.map_eq_some_iff.1 h
    rw [Line.isTouched, Key.not_isFixed] at ht
    exact Table.changeAt_touches Table.opened_touches Table.openTable_eq key.names _ _ htable ht
  | element key =>
    rw [Line.apply, Progress.enter_eq] at h
    obtain ⟨t, htable, rfl⟩ := Option.map_eq_some_iff.1 h
    rw [Line.isTouched, Key.not_isFixed] at ht
    exact Table.changeAt_touches Table.extended_touches Table.openElement_eq key.names _ _ htable ht
  | entry key w =>
    obtain ⟨v, hv, h⟩ := Option.bind_eq_some_iff.1 h
    obtain ⟨t, htable, rfl⟩ := Option.map_eq_some_iff.1 h
    rw [Line.isTouched, Bool.or_eq_true, Key.not_isFixed] at ht
    -- the path of the open table is of no interest here: its header has touched the table already
    refine (Table.change_touches (Table.assign_touches v key.names) r.here).mono ?_ _ _ htable ht
    rintro (hk | hw)
    · exact .inr (.inl hk)
    · exact .inr (.inr (w.isTouched_of_value? hv hw))

/-- What marking touches in a document is in its table at the end. -/
theorem Document.isTouched_of_run (h : Document.run r d = some r')
    (ht : d.any Line.isTouched = true ∨ r.root.IsTouched) : r'.root.IsTouched := by
  induction d generalizing r with
  | nil =>
    obtain rfl := Option.some.inj h
    rcases ht with ht | ht
    · cases ht
    · exact ht
  | cons line d ih =>
    obtain ⟨s, hs, h⟩ := Option.bind_eq_some_iff.1 h
    rw [List.any_cons, Bool.or_eq_true, or_assoc, or_left_comm] at ht
    refine ih h ?_
    rcases ht with ht | ht
    · exact .inl ht
    · exact .inr (Line.isTouched_of_apply hs ht)

/-! ## Untouched documents -/

theorem Written.isFixed_of_not_isTouched (h : w.isTouched = false) : w.isFixed = true := by
  cases w with
  | table entries =>
    rw [Written.isTouched, List.any_eq_false] at h
    rw [Written.isFixed, List.all_eq_true]
    intro entry hentry
    simpa using h entry hentry
  | _ => rfl

theorem Written.keepsStep_of_not_isTouched (h : w.isTouched = false) : w.keepsStep = true := by
  cases w with
  | scalar src v =>
    cases v with
    | datetime => cases h
    | _ => rfl
  | _ => rfl

theorem Written.not_isFloatLiteral (h : w.isTouched = false) : w.isFloatLiteral = false := by
  cases w with
  | scalar src v =>
    cases v with
    | float token => cases h
    | _ => rfl
  | _ => rfl

theorem Written.mem_parts (w : Written) : w ∈ w.parts := by
  cases w <;> simp [Written.parts]

theorem mem_itemParts {items : List Written} (h : w ∈ items) : w ∈ itemParts items := by
  induction items with
  | nil => cases h
  | cons item items ih =>
    rw [itemParts, List.mem_append]
    rcases List.mem_cons.1 h with rfl | h
    · exact .inl w.mem_parts
    · exact .inr (ih h)

mutual
theorem Written.isEven_parts (w : Written) (h : w.parts.any Written.isTouched = false) :
    w.parts.all Written.isEven = true := by
  cases w with
  | string text => rfl
  | scalar src v => rfl
  | array items =>
    rw [Written.parts, List.any_cons, Bool.or_eq_false_iff] at h
    rw [Written.parts, List.all_cons, isEven_itemParts items h.2, Bool.and_true, Written.isEven]
    -- an array is even because none of its elements is a float
    have hnone : items.any Written.isFloatLiteral = false := by
      rw [List.any_eq_false]
      intro item hitem
      have htouched : item.isTouched = false := by
        simpa using List.any_eq_false.1 h.2 item (mem_itemParts hitem)
      simp [Written.not_isFloatLiteral htouched]
    rw [hnone, Bool.not_false, Bool.or_true]
  | table entries =>
    have htable : (Written.table entries).isEven = true := rfl
    rw [Written.parts, List.any_cons, Bool.or_eq_false_iff] at h
    rw [Written.parts, List.all_cons, htable, isEven_entryParts entries h.2, Bool.and_true]

theorem isEven_itemParts (items : List Written)
    (h : (itemParts items).any Written.isTouched = false) :
    (itemParts items).all Written.isEven = true := by
  cases items with
  | nil => rfl
  | cons item items =>
    rw [itemParts, List.any_append, Bool.or_eq_false_iff] at h
    rw [itemParts, List.all_append, item.isEven_parts h.1, isEven_itemParts items h.2,
      Bool.and_true]

theorem isEven_entryParts (entries : List (Key × Written))
    (h : (entryParts entries).any Written.isTouched = false) :
    (entryParts entries).all Written.isEven = true := by
  cases entries with
  | nil => rfl
  | cons entry entries =>
    obtain ⟨key, w⟩ := entry
    rw [entryParts, List.any_append, Bool.or_eq_false_iff] at h
    rw [entryParts, List.all_append, w.isEven_parts h.1, isEven_entryParts entries h.2,
      Bool.and_true]
end

theorem Line.isEven_parts (h : line.isTouched = false) :
    line.parts.all Written.isEven = true := by
  cases line with
  | entry key w =>
    rw [Line.isTouched, Bool.or_eq_false_iff] at h
    exact w.isEven_parts h.2
  | _ => rfl

theorem Line.not_isTouched_parts (h : line.isTouched = false) :
    ∀ w ∈ line.parts, w.isTouched = false := by
  cases line with
  | entry key w =>
    rw [Line.isTouched, Bool.or_eq_false_iff] at h
    intro part hpart
    simpa using List.any_eq_false.1 h.2 part hpart
  | _ =>
    intro part hpart
    cases hpart

theorem Line.isFixed_of_not_isTouched (h : line.isTouched = false) : line.isFixed = true := by
  cases line with
  | entry key w =>
    have hparts := Line.not_isTouched_parts h
    rw [Line.isTouched, Bool.or_eq_false_iff, Bool.not_eq_false'] at h
    rw [Line.isFixed, h.1, Bool.true_and, List.all_eq_true]
    exact fun part hpart => Written.isFixed_of_not_isTouched (hparts part hpart)
  | _ => simpa [Line.isTouched, Line.isFixed] using h

/-- A document whose table holds nothing that marking touches has no date, no key that can change
and no array of floats and other values. -/
theorem Document.steady_of_not_isTouched (h : d.table? = some t) (ht : ¬ t.IsTouched) :
    d.keepsStep = true ∧ d.isFixed = true ∧ d.isEven = true := by
  obtain ⟨r, hr, rfl⟩ := Option.map_eq_some_iff.1 h
  have hlines : ∀ line ∈ d, line.isTouched = false := by
    intro line hline
    rw [Bool.eq_false_iff]
    intro hl
    exact ht (Document.isTouched_of_run hr (.inl (List.any_eq_true.2 ⟨line, hline, hl⟩)))
  refine ⟨?_, ?_, ?_⟩
  · rw [Document.keepsStep, List.all_eq_true]
    intro part hpart
    obtain ⟨line, hline, hpart⟩ := List.mem_flatMap.1 hpart
    have hpart' := Line.not_isTouched_parts (hlines line hline) part hpart
    exact Written.keepsStep_of_not_isTouched hpart'
  · rw [Document.isFixed, List.all_eq_true]
    exact fun line hline => Line.isFixed_of_not_isTouched (hlines line hline)
  · rw [Document.isEven, Document.parts, List.all_flatMap, List.all_eq_true]
    exact fun line hline => Line.isEven_parts (hlines line hline)

end WakeConfig.Toml
