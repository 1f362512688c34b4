import WakeConfig.Proofs.Toml.Marked
import WakeConfig.Proofs.Toml.Operations

/-!
# Tables of marked documents

A marked document is built in two steps from the document: its keys are respelled, and then the
float tokens among its values are marked. The first step changes nothing that is shown
(`shown_respelled`), if the respelled document still has a table. The second step keeps the table
if the elements of each array are still of one type (`table?_marked_iff`).
-/

namespace WakeConfig.Toml

open FloatLiteral (isFloatToken marker)

variable {v v' : Value} {w : Written} {vs vs' : List Value} {items : List Written}
  {entries : List (Key × Written)} {t t' u u' : Table} {line : Line} {d : Document}
  {p p' q q' : Progress} {names names' : List String}

/-! ## Elements -/

/-- The type of a written value as an element of an array. -/
def Written.elementType : Written → ElementType
  | .string _ => .string
  | .scalar _ v => v.elementType
  | .array _ => .array
  | .table _ => .table

/-- Whether elements are all of one type, and of the given one if there is one. -/
def OneType (type? : Option ElementType) (items : List Written) : Prop :=
  ∃ type, (∀ t ∈ type?, t = type) ∧ ∀ item ∈ items, item.elementType = type

/-- The values of elements of any types. -/
def eachValue? : List Written → Option (List Value)
  | [] => some []
  | item :: items => item.value?.bind fun v => (eachValue? items).map (v :: ·)

theorem elementType_of_value? (h : w.value? = some v) : v.elementType = w.elementType := by
  cases w with
  | string text =>
    obtain rfl := Option.some.inj h
    rfl
  | scalar src x =>
    obtain rfl := Option.some.inj h
    rfl
  | array items =>
    obtain ⟨vs, -, rfl⟩ := Option.map_eq_some_iff.1 h
    rfl
  | table entries =>
    obtain ⟨t, -, rfl⟩ := Option.map_eq_some_iff.1 h
    rfl

theorem oneType_cons (type? : Option ElementType) (item : Written) (items : List Written) :
    OneType type? (item :: items)
      ↔ type?.getD item.elementType = item.elementType ∧ OneType (some item.elementType) items := by
  constructor
  · rintro ⟨type, htype, hitems⟩
    have hitem := hitems item List.mem_cons_self
    refine ⟨?_, type, by simp [hitem], fun x hx => hitems x (List.mem_cons_of_mem _ hx)⟩
    cases type? with
    | none => rfl
    | some t => rw [Option.getD_some, hitem, htype t rfl]
  · rintro ⟨hitem, type, htype, hitems⟩
    have ht : item.elementType = type := htype _ rfl
    refine ⟨type, ?_, ?_⟩
    · rintro t ht'
      obtain rfl := Option.mem_def.1 ht'
      exact hitem.trans ht
    · intro x hx
      rcases List.mem_cons.1 hx with rfl | hx
      · exact ht
      · exact hitems x hx

/-- The elements of an array have values if each has one and all are of one type. -/
theorem itemValues?_eq_some_iff (type? : Option ElementType) (items : List Written) :
    itemValues? type? items = some vs ↔ OneType type? items ∧ eachValue? items = some vs := by
  induction items generalizing type? vs with
  | nil =>
    have ho : OneType type? [] := by
      cases type? with
      | none => exact ⟨.string, by simp, by simp⟩
      | some t => exact ⟨t, by simp, by simp⟩
    simp [itemValues?, eachValue?, ho]
  | cons item items ih =>
    rw [itemValues?_cons, oneType_cons, eachValue?]
    cases hv : item.value? with
    | none => simp
    | some v =>
      have he := elementType_of_value? hv
      rw [Option.bind_some, Option.bind_some, he]
      by_cases ht : type?.getD item.elementType = item.elementType
      · rw [if_neg (by simpa using ht)]
        constructor
        · intro h
          obtain ⟨vs, hvs, rfl⟩ := Option.map_eq_some_iff.1 h
          obtain ⟨ho, hvs⟩ := (ih _).1 hvs
          exact ⟨⟨ht, ho⟩, by rw [hvs, Option.map_some]⟩
        · rintro ⟨⟨-, ho⟩, h⟩
          obtain ⟨vs, hvs, rfl⟩ := Option.map_eq_some_iff.1 h
          rw [(ih _).2 ⟨ho, hvs⟩, Option.map_some]
      · rw [if_pos ht]
        simp [ht]

/-! ## Even arrays -/

/-- Whether a value is written as a float token that marking finds. -/
def Written.isFloatLiteral : Written → Bool
  | .scalar _ (.float token) => isFloatToken token.toList
  | _ => false

/-- Whether all elements of an array are float tokens or none is. -/
def Written.isEven : Written → Bool
  | .array items => items.all Written.isFloatLiteral || !items.any Written.isFloatLiteral
  | _ => true

/-- Whether in each array of a document all elements are float tokens or none is. -/
def Document.isEven (d : Document) : Bool := d.parts.all Written.isEven

theorem elementType_respell (w : Written) :
    (w.respell .scalar).elementType = w.elementType := by
  cases w <;> rfl

theorem elementType_marked (hv : ∀ token, v ≠ .float token) :
    v.marked.elementType = v.elementType := by
  cases v with
  | float token => exact absurd rfl (hv token)
  | _ => simp [Value.elementType]

/-- Marking makes a float token a string and changes no other type. -/
theorem elementType_respell_markScalar (w : Written) :
    (w.respell markScalar).elementType
      = if w.isFloatLiteral then .string else w.elementType := by
  cases w with
  | scalar src v =>
    by_cases hv : ∃ token, v = .float token
    · obtain ⟨token, rfl⟩ := hv
      rw [Written.respell, markScalar, Written.isFloatLiteral]
      split <;> rfl
    · have hv' : ∀ token, v ≠ .float token := fun token h => hv ⟨token, h⟩
      have hl : (Written.scalar src v).isFloatLiteral = false := by
        cases v with
        | float token => exact absurd rfl (hv' token)
        | _ => rfl
      rw [Written.respell, markScalar.eq_2 src v hv', hl, if_neg Bool.false_ne_true]
      exact elementType_marked hv'
  | _ => rfl

theorem elementType_of_isFloatLiteral (h : w.isFloatLiteral = true) :
    w.elementType ≠ .string := by
  cases w with
  | scalar src v =>
    cases v with
    | float token =>
      show (if isSpecialToken token then ElementType.special else .float) ≠ .string
      split <;> decide
    | _ => cases h
  | _ => cases h

theorem respellItems_eq_map (scalar : List Char → Value → Written) (items : List Written) :
    respellItems scalar items = items.map (Written.respell scalar) := by
  induction items with
  | nil => rw [respellItems, List.map_nil]
  | cons item items ih => rw [respellItems, List.map_cons, ih]

theorem oneType_respell (type? : Option ElementType) (items : List Written) :
    OneType type? (respellItems .scalar items) ↔ OneType type? items := by
  unfold OneType
  simp only [respellItems_eq_map, List.forall_mem_map, elementType_respell]

/-- Elements of one type are still of one type after marking if all or none are float tokens. -/
theorem oneType_respell_markScalar (h : OneType none items) :
    OneType none (respellItems markScalar items)
      ↔ items.all Written.isFloatLiteral = true ∨ items.any Written.isFloatLiteral = false := by
  obtain ⟨type, -, hitems⟩ := h
  unfold OneType
  simp only [respellItems_eq_map, List.forall_mem_map, elementType_respell_markScalar]
  constructor
  · rintro ⟨type', -, hmarked⟩
    by_cases ha : items.any Written.isFloatLiteral = true
    · obtain ⟨x, hx, hlit⟩ := List.any_eq_true.1 ha
      have hstring : ElementType.string = type' := by
        have := hmarked x hx
        rwa [if_pos hlit] at this
      refine .inl (List.all_eq_true.2 fun y hy => ?_)
      cases hy' : y.isFloatLiteral with
      | true => rfl
      | false =>
        -- `y` keeps its type, which is that of `x` and so is not the type of strings
        have hty := hmarked y hy
        rw [hy', if_neg Bool.false_ne_true, hitems y hy, ← hitems x hx, ← hstring] at hty
        exact absurd hty (elementType_of_isFloatLiteral hlit)
    · exact .inr (by simpa using ha)
  · rintro (hall | hnone)
    · refine ⟨.string, by simp, fun x hx => ?_⟩
      rw [if_pos (List.all_eq_true.1 hall x hx)]
    · refine ⟨type, by simp, fun x hx => ?_⟩
      have hlit : x.isFloatLiteral = false := by
        simpa using List.any_eq_false.1 hnone x hx
      rw [hlit, if_neg Bool.false_ne_true, hitems x hx]

/-! ## Respelled keys -/

mutual
theorem Written.shown_respell {v v' : Value} (w : Written) (h : w.value? = some v)
    (h' : (w.respell .scalar).value? = some v') : v.shown = v'.shown := by
  cases w with
  | string text =>
    obtain rfl := Option.some.inj (h.symm.trans h')
    rfl
  | scalar src x =>
    obtain rfl := Option.some.inj (h.symm.trans h')
    rfl
  | array items =>
    obtain ⟨vs, hvs, rfl⟩ := Option.map_eq_some_iff.1 h
    obtain ⟨vs', hvs', rfl⟩ := Option.map_eq_some_iff.1 h'
    obtain ⟨-, hvs⟩ := (itemValues?_eq_some_iff _ _).1 hvs
    obtain ⟨-, hvs'⟩ := (itemValues?_eq_some_iff _ _).1 hvs'
    rw [Value.shown_array, Value.shown_array, shown_respellItems items hvs hvs']
  | table entries =>
    obtain ⟨t, ht, rfl⟩ := Option.map_eq_some_iff.1 h
    obtain ⟨t', ht', rfl⟩ := Option.map_eq_some_iff.1 h'
    rw [Value.shown_table, Value.shown_table, shown_respellEntries entries rfl ht ht']

theorem shown_respellItems {vs vs' : List Value} (items : List Written)
    (h : eachValue? items = some vs)
    (h' : eachValue? (respellItems .scalar items) = some vs') :
    vs.map Value.shown = vs'.map Value.shown := by
  cases items with
  | nil =>
    obtain rfl := Option.some.inj (h.symm.trans h')
    rfl
  | cons item items =>
    obtain ⟨v, hv, h⟩ := Option.bind_eq_some_iff.1 h
    obtain ⟨v', hv', h'⟩ := Option.bind_eq_some_iff.1 h'
    obtain ⟨vs, hvs, rfl⟩ := Option.map_eq_some_iff.1 h
    obtain ⟨vs', hvs', rfl⟩ := Option.map_eq_some_iff.1 h'
    rw [List.map_cons, List.map_cons, Written.shown_respell item hv hv',
      shown_respellItems items hvs hvs']

theorem shown_respellEntries {t t' u u' : Table} (entries : List (Key × Written))
    (htu : t.shown = u.shown) (h : entryTable? t entries = some t')
    (h' : entryTable? u (respellEntries .scalar entries) = some u') : t'.shown = u'.shown := by
  cases entries with
  | nil =>
    obtain rfl := Option.some.inj h
    obtain rfl := Option.some.inj h'
    exact htu
  | cons entry entries =>
    obtain ⟨key, w⟩ := entry
    rw [entryTable?_cons] at h
    rw [respellEntries, entryTable?_cons] at h'
    obtain ⟨v, hv, h⟩ := Option.bind_eq_some_iff.1 h
    obtain ⟨v', hv', h'⟩ := Option.bind_eq_some_iff.1 h'
    obtain ⟨s, hs, h⟩ := Option.bind_eq_some_iff.1 h
    obtain ⟨s', hs', h'⟩ := Option.bind_eq_some_iff.1 h'
    exact shown_respellEntries entries
      (Table.assign_agrees (Written.shown_respell w hv hv') key.respelled _ _ _ _ htu hs hs') h h'
end

theorem Progress.enter_eq (p : Progress) (names : List String)
    (add : String → Table → Option Table) :
    p.enter names add = (Table.changeAt add names p.root).map fun root => ⟨root, names⟩ := by
  unfold Progress.enter Table.changeAt
  cases names.getLast? <;> rfl

/-- Two readings that have come equally far: their tables look the same, and the open table of one
is that of the other respelled. -/
structure Progress.Agrees (p q : Progress) : Prop where
  root : p.root.shown = q.root.shown
  here : Respelled p.here q.here

theorem Line.apply_agrees (h : p.Agrees q) (hp : line.apply p = some p')
    (hq : (line.respell .scalar).apply q = some q') : p'.Agrees q' := by
  cases line with
  | header key =>
    rw [Line.apply, Progress.enter_eq] at hp
    rw [Line.respell, Line.apply, Progress.enter_eq] at hq
    obtain ⟨t, ht, rfl⟩ := Option.map_eq_some_iff.1 hp
    obtain ⟨u, hu, rfl⟩ := Option.map_eq_some_iff.1 hq
    exact ⟨Table.changeAt_agrees Table.opened_agrees Table.openTable_eq key.respelled _ _ _ _ h.root
      ht hu, key.respelled⟩
  | element key =>
    rw [Line.apply, Progress.enter_eq] at hp
    rw [Line.respell, Line.apply, Progress.enter_eq] at hq
    obtain ⟨t, ht, rfl⟩ := Option.map_eq_some_iff.1 hp
    obtain ⟨u, hu, rfl⟩ := Option.map_eq_some_iff.1 hq
    exact ⟨Table.changeAt_agrees Table.extended_agrees Table.openElement_eq key.respelled _ _ _ _
      h.root ht hu, key.respelled⟩
  | entry key w =>
    obtain ⟨v, hv, hp⟩ := Option.bind_eq_some_iff.1 hp
    obtain ⟨v', hv', hq⟩ := Option.bind_eq_some_iff.1 hq
    obtain ⟨t, ht, rfl⟩ := Option.map_eq_some_iff.1 hp
    obtain ⟨u, hu, rfl⟩ := Option.map_eq_some_iff.1 hq
    have hassign := Table.assign_agrees (w.shown_respell hv hv') key.respelled
    exact ⟨Table.change_agrees hassign h.here _ _ _ _ h.root ht hu, h.here⟩

theorem Document.run_agrees (h : p.Agrees q) (hp : Document.run p d = some p')
    (hq : Document.run q d.respelled = some q') : p'.Agrees q' := by
  induction d generalizing p q with
  | nil =>
    obtain rfl := Option.some.inj hp
    obtain rfl := Option.some.inj hq
    exact h
  | cons line d ih =>
    obtain ⟨r, hr, hp⟩ := Option.bind_eq_some_iff.1 hp
    obtain ⟨s, hs, hq⟩ := Option.bind_eq_some_iff.1 hq
    exact ih (Line.apply_agrees h hr hs) hp hq

/-- Respelling its keys changes nothing that the table of a document shows. -/
theorem Document.shown_respelled (h : d.table? = some t) (h' : d.respelled.table? = some u) :
    t.shown = u.shown := by
  obtain ⟨p, hp, rfl⟩ := Option.map_eq_some_iff.1 h
  obtain ⟨q, hq, rfl⟩ := Option.map_eq_some_iff.1 h'
  exact (Document.run_agrees ⟨rfl, .nil⟩ hp hq).root

/-! ## Documents in which no key changes -/

/-- Whether no name of a key can change. -/
def Key.isFixed (key : Key) : Bool := !key.names.any mayChange

/-- Whether none of the keys of a table can change. -/
def Written.isFixed : Written → Bool
  | .table entries => entries.all fun entry => entry.1.isFixed
  | _ => true

/-- Whether no key in a line can change. -/
def Line.isFixed : Line → Bool
  | header key => key.isFixed
  | element key => key.isFixed
  | entry key w => key.isFixed && w.parts.all Written.isFixed

/-- Whether no key in a document can change. -/
def Document.isFixed (d : Document) : Bool := d.all Line.isFixed

theorem Respelled.eq_of_fixed (h : Respelled names names')
    (hf : names.any mayChange = false) : names' = names := by
  induction h with
  | nil => rfl
  | cons h ih =>
    rw [List.any_cons, Bool.or_eq_false_iff] at hf
    rw [ih hf.2]
  | change h h' =>
    rw [List.any_cons, h, Bool.true_or] at hf
    cases hf

theorem Key.names_mark {key : Key} (h : key.isFixed = true) : key.mark.names = key.names :=
  key.respelled.eq_of_fixed (by simpa [Key.isFixed] using h)

mutual
theorem Written.value?_of_isFixed (w : Written) (h : w.parts.all Written.isFixed = true) :
    (w.respell .scalar).value? = w.value? := by
  cases w with
  | string text => rfl
  | scalar src v => rfl
  | array items =>
    rw [Written.parts, List.all_cons, Bool.and_eq_true] at h
    rw [Written.respell, Written.value?, Written.value?, itemValues?_of_isFixed none items h.2]
  | table entries =>
    rw [Written.parts, List.all_cons, Bool.and_eq_true] at h
    rw [Written.respell, Written.value?, Written.value?,
      entryTable?_of_isFixed [] entries h.1 h.2]

theorem itemValues?_of_isFixed (type? : Option ElementType) (items : List Written)
    (h : (itemParts items).all Written.isFixed = true) :
    itemValues? type? (respellItems .scalar items) = itemValues? type? items := by
  cases items with
  | nil => rfl
  | cons item items =>
    rw [itemParts, List.all_append, Bool.and_eq_true] at h
    have hitems := fun type => itemValues?_of_isFixed (some type) items h.2
    rw [respellItems, itemValues?_cons, itemValues?_cons, Written.value?_of_isFixed item h.1]
    simp only [hitems]

theorem entryTable?_of_isFixed (t : Table) (entries : List (Key × Written))
    (hk : (Written.table entries).isFixed = true)
    (h : (entryParts entries).all Written.isFixed = true) :
    entryTable? t (respellEntries .scalar entries) = entryTable? t entries := by
  cases entries with
  | nil => rfl
  | cons entry entries =>
    obtain ⟨key, w⟩ := entry
    rw [entryParts, List.all_append, Bool.and_eq_true] at h
    rw [Written.isFixed, List.all_cons, Bool.and_eq_true] at hk
    have hentries := fun t => entryTable?_of_isFixed t entries hk.2 h.2
    rw [respellEntries, entryTable?_cons, entryTable?_cons, Key.names_mark hk.1,
      Written.value?_of_isFixed w h.1]
    simp only [hentries]
end

theorem Line.apply_of_isFixed (p : Progress) (h : line.isFixed = true) :
    (line.respell .scalar).apply p = line.apply p := by
  cases line with
  | header key => rw [Line.respell, Line.apply, Line.apply, Key.names_mark h]
  | element key => rw [Line.respell, Line.apply, Line.apply, Key.names_mark h]
  | entry key w =>
    rw [Line.isFixed, Bool.and_eq_true] at h
    rw [Line.respell, Line.apply, Line.apply, Key.names_mark h.1, w.value?_of_isFixed h.2]

theorem Document.run_of_isFixed (p : Progress) (h : d.isFixed = true) :
    Document.run p d.respelled = Document.run p d := by
  induction d generalizing p with
  | nil => rfl
  | cons line d ih =>
    rw [Document.isFixed, List.all_cons, Bool.and_eq_true] at h
    rw [Document.respelled, List.map_cons, Document.run, Document.run,
      Line.apply_of_isFixed p h.1]
    exact Option.bind_congr fun q _ => ih q h.2

/-- Where no key can change, respelling leaves the table as it is. -/
theorem Document.table?_respelled_of_isFixed (h : d.isFixed = true) :
    d.respelled.table? = d.table? := by
  rw [Document.table?, Document.table?, Document.run_of_isFixed _ h]

/-! ## Marked values -/

theorem markScalar_value? (src : List Char) (v : Value) :
    (markScalar src v).value? = some v.marked := by
  cases v with
  | float token =>
    rw [markScalar, Value.marked, Value.view, Bool.true_and]
    split <;> rfl
  | _ => rfl

mutual
theorem Written.value?_marked_iff {v x : Value} (w : Written) (h : w.value? = some v) :
    (w.respell markScalar).value? = some x ↔
      w.parts.all Written.isEven = true ∧
        ∃ y, (w.respell .scalar).value? = some y ∧ y.marked = x := by
  cases w with
  | string text =>
    simp only [Written.respell, Written.value?, Written.parts]
    simp [Written.isEven]
  | scalar src v =>
    simp only [Written.respell, markScalar_value?, Written.value?, Written.parts]
    simp [Written.isEven]
  | array items =>
    obtain ⟨vs, hvs, rfl⟩ := Option.map_eq_some_iff.1 h
    obtain ⟨htype, hvs⟩ := (itemValues?_eq_some_iff _ _).1 hvs
    have heven := oneType_respell_markScalar htype
    simp only [Written.respell, Written.value?, Written.parts, Option.map_eq_some_iff,
      itemValues?_eq_some_iff, oneType_respell, List.all_cons, Bool.and_eq_true, Written.isEven,
      Bool.or_eq_true, Bool.not_eq_true']
    constructor
    · rintro ⟨xs, ⟨hone, hxs⟩, rfl⟩
      obtain ⟨hall, ys, hys, rfl⟩ := (eachValue?_marked_iff items hvs).1 hxs
      exact ⟨⟨heven.1 hone, hall⟩, _, ⟨ys, ⟨htype, hys⟩, rfl⟩, Value.marked_array ys⟩
    · rintro ⟨⟨hone, hall⟩, -, ⟨ys, ⟨-, hys⟩, rfl⟩, rfl⟩
      exact ⟨_, ⟨heven.2 hone, (eachValue?_marked_iff items hvs).2 ⟨hall, ys, hys, rfl⟩⟩,
        (Value.marked_array ys).symm⟩
  | table entries =>
    obtain ⟨t, ht, rfl⟩ := Option.map_eq_some_iff.1 h
    have hentries := fun x => entryTable?_marked_iff (u := []) (x := x) entries ht
    rw [Table.marked_nil] at hentries
    simp only [Written.respell, Written.value?, Written.parts, Option.map_eq_some_iff, hentries,
      List.all_cons, Written.isEven, Bool.true_and]
    constructor
    · rintro ⟨-, ⟨hall, y, hy, rfl⟩, rfl⟩
      exact ⟨hall, _, ⟨y, hy, rfl⟩, Value.marked_table .inline y⟩
    · rintro ⟨hall, -, ⟨y, hy, rfl⟩, rfl⟩
      exact ⟨_, ⟨hall, y, hy, rfl⟩, (Value.marked_table .inline y).symm⟩

theorem eachValue?_marked_iff {vs x : List Value} (items : List Written)
    (h : eachValue? items = some vs) :
    eachValue? (respellItems markScalar items) = some x ↔
      (itemParts items).all Written.isEven = true ∧
        ∃ ys, eachValue? (respellItems .scalar items) = some ys ∧ ys.map Value.marked = x := by
  cases items with
  | nil => simp [respellItems, eachValue?, itemParts]
  | cons item items =>
    obtain ⟨v, hv, h⟩ := Option.bind_eq_some_iff.1 h
    obtain ⟨vs, hvs, rfl⟩ := Option.map_eq_some_iff.1 h
    have hitem := fun x => Written.value?_marked_iff (x := x) item hv
    have hitems := fun x => eachValue?_marked_iff (x := x) items hvs
    simp only [respellItems, eachValue?, itemParts, List.all_append, Bool.and_eq_true,
      Option.bind_eq_some_iff, Option.map_eq_some_iff, hitem, hitems]
    constructor
    · rintro ⟨-, ⟨hall, y, hy, rfl⟩, -, ⟨halls, ys, hys, rfl⟩, rfl⟩
      exact ⟨⟨hall, halls⟩, _, ⟨y, hy, ys, hys, rfl⟩, rfl⟩
    · rintro ⟨⟨hall, halls⟩, -, ⟨y, hy, ys, hys, rfl⟩, rfl⟩
      exact ⟨_, ⟨hall, y, hy, rfl⟩, _, ⟨halls, ys, hys, rfl⟩, rfl⟩

theorem entryTable?_marked_iff {t t' u x : Table} (entries : List (Key × Written))
    (h : entryTable? t entries = some t') :
    entryTable? u.marked (respellEntries markScalar entries) = some x ↔
      (entryParts entries).all Written.isEven = true ∧
        ∃ y, entryTable? u (respellEntries .scalar entries) = some y ∧ y.marked = x := by
  cases entries with
  | nil => simp [respellEntries, entryTable?, entryParts]
  | cons entry entries =>
    obtain ⟨key, w⟩ := entry
    rw [entryTable?_cons] at h
    obtain ⟨v, hv, h⟩ := Option.bind_eq_some_iff.1 h
    obtain ⟨s, hs, h⟩ := Option.bind_eq_some_iff.1 h
    have hvalue := fun x => Written.value?_marked_iff (x := x) w hv
    have hentries := fun u x => entryTable?_marked_iff (u := u) (x := x) entries h
    simp only [respellEntries, entryTable?_cons, entryParts, List.all_append, Bool.and_eq_true,
      Option.bind_eq_some_iff, hvalue]
    constructor
    · rintro ⟨-, ⟨hall, y, hy, rfl⟩, s', hs', hx⟩
      rw [Table.assign_marked] at hs'
      obtain ⟨r, hr, rfl⟩ := Option.map_eq_some_iff.1 hs'
      obtain ⟨halls, z, hz, rfl⟩ := (hentries r x).1 hx
      exact ⟨⟨hall, halls⟩, z, ⟨y, hy, r, hr, hz⟩, rfl⟩
    · rintro ⟨⟨hall, halls⟩, z, ⟨y, hy, r, hr, hz⟩, rfl⟩
      refine ⟨y.marked, ⟨hall, y, hy, rfl⟩, r.marked, ?_, (hentries r _).2 ⟨halls, z, hz, rfl⟩⟩
      rw [Table.assign_marked, hr, Option.map_some]
end

/-! ## Marked documents -/

/-- A document as far as it has been read, with its float tokens marked. -/
def Progress.marked (p : Progress) : Progress := ⟨p.root.marked, p.here⟩

theorem Progress.enter_marked {add : String → Table → Option Table}
    (h : ∀ key, Table.MarksTable (add key) (add key)) (p : Progress) (names : List String) :
    p.marked.enter names add = (p.enter names add).map Progress.marked := by
  unfold Progress.enter
  split
  · rfl
  · rename_i last _
    have hm := Table.change_marked (h last) names.dropLast p.root
    rw [Progress.marked, hm, Option.map_map, Option.map_map]
    rfl

theorem Progress.assign_marked (v : Value) (p : Progress) (names : List String) :
    p.marked.assign names v.marked = (p.assign names v).map Progress.marked := by
  have hm := Table.change_marked (Table.assign_marked v names) p.here p.root
  unfold Progress.assign
  rw [Progress.marked, hm, Option.map_map, Option.map_map]
  rfl

/-- A marked line does what the respelled one does if it has only even arrays, and else nothing. -/
theorem Line.apply_marked_iff (q q' : Progress) (h : line.apply p = some p') :
    (line.respell markScalar).apply q.marked = some q' ↔
      line.parts.all Written.isEven = true ∧
        ∃ r, (line.respell .scalar).apply q = some r ∧ r.marked = q' := by
  cases line with
  | header key =>
    simp only [Line.respell, Line.apply, Line.parts, Progress.enter_marked Table.openTable_marked,
      Option.map_eq_some_iff, List.all_nil, true_and]
  | element key =>
    simp only [Line.respell, Line.apply, Line.parts, Progress.enter_marked Table.openElement_marked,
      Option.map_eq_some_iff, List.all_nil, true_and]
  | entry key w =>
    obtain ⟨v, hv, -⟩ := Option.bind_eq_some_iff.1 h
    have hvalue := fun x => Written.value?_marked_iff (x := x) w hv
    simp only [Line.respell, Line.apply, Line.parts, Option.bind_eq_some_iff, hvalue]
    constructor
    · rintro ⟨-, ⟨hall, y, hy, rfl⟩, hq⟩
      rw [Progress.assign_marked] at hq
      obtain ⟨r, hr, rfl⟩ := Option.map_eq_some_iff.1 hq
      exact ⟨hall, r, ⟨y, hy, hr⟩, rfl⟩
    · rintro ⟨hall, r, ⟨y, hy, hr⟩, rfl⟩
      refine ⟨y.marked, ⟨hall, y, hy, rfl⟩, ?_⟩
      rw [Progress.assign_marked, hr, Option.map_some]

theorem Document.run_marked_iff (q q' : Progress) (h : Document.run p d = some p') :
    Document.run q.marked d.marked = some q' ↔
      d.isEven = true ∧ ∃ r, Document.run q d.respelled = some r ∧ r.marked = q' := by
  induction d generalizing p q with
  | nil =>
    simp [Document.marked, Document.respelled, Document.run, Document.isEven, Document.parts]
  | cons line d ih =>
    obtain ⟨s, hs, h⟩ := Option.bind_eq_some_iff.1 h
    have hline := fun x => Line.apply_marked_iff q x hs
    have hrest := fun r => ih r h
    simp only [Document.isEven, Document.parts, List.flatMap_cons, List.all_append,
      Bool.and_eq_true] at hrest ⊢
    constructor
    · intro hq
      obtain ⟨x, hx, hq⟩ := Option.bind_eq_some_iff.1 hq
      obtain ⟨hall, r, hr, rfl⟩ := (hline _).1 hx
      obtain ⟨halls, r', hr', rfl⟩ := (hrest r).1 hq
      exact ⟨⟨hall, halls⟩, r', Option.bind_eq_some_iff.2 ⟨r, hr, hr'⟩, rfl⟩
    · rintro ⟨⟨hall, halls⟩, r', hq, rfl⟩
      obtain ⟨r, hr, hr'⟩ := Option.bind_eq_some_iff.1 hq
      exact Option.bind_eq_some_iff.2
        ⟨r.marked, (hline _).2 ⟨hall, r, hr, rfl⟩, (hrest r).2 ⟨halls, r', hr', rfl⟩⟩

/-- A marked document has a table if it has only even arrays and the respelled one has a table; the
table is that one with its float tokens marked. -/
theorem Document.table?_marked_iff (h : d.table? = some t) :
    d.marked.table? = some u ↔
      d.isEven = true ∧ ∃ r, d.respelled.table? = some r ∧ r.marked = u := by
  obtain ⟨p, hp, rfl⟩ := Option.map_eq_some_iff.1 h
  have hrun := fun q' => Document.run_marked_iff ⟨[], []⟩ q' hp
  rw [show Progress.marked ⟨[], []⟩ = ⟨[], []⟩ by rw [Progress.marked, Table.marked_nil]] at hrun
  simp only [Document.table?, Option.map_eq_some_iff, hrun]
  constructor
  · rintro ⟨-, ⟨heven, r, hr, rfl⟩, rfl⟩
    exact ⟨heven, r.root, ⟨r, hr, rfl⟩, rfl⟩
  · rintro ⟨heven, -, ⟨r, hr, rfl⟩, rfl⟩
    exact ⟨r.marked, ⟨heven, r, hr, rfl⟩, rfl⟩

/-- What the table of a marked document shows is what the table of the document shows, with its
float tokens marked. -/
theorem Document.shown_marked (h : d.table? = some t) (h' : d.marked.table? = some u) :
    u.shown = t.marked.shown := by
  obtain ⟨-, r, hr, rfl⟩ := (Document.table?_marked_iff h).1 h'
  rw [← Table.marked_shown, ← Table.marked_shown, Document.shown_respelled h hr]

end WakeConfig.Toml
