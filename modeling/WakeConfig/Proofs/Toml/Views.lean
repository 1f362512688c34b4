import WakeConfig.Proofs.Toml.KeyMarking

/-!
# Views of a table

A view of a tree leaves out the entries of some keys and may show its float tokens as the strings
that marking makes of them. `Table.marked` is the view that leaves out nothing, and `Table.shown`
the one without the keys that marking can change. The operations on a table commute with the first;
of two tables that look the same in the second, the same operation under respelled keys makes two
that look the same again.
-/

namespace WakeConfig.Toml

open FloatLiteral (isFloatToken marker)

/-! ## Views -/

mutual
/-- A value without the entries whose keys are not kept; where `marks` holds, a float token is the
string that stands for it. -/
def Value.view (keep : String → Bool) (marks : Bool) : Value → Value
  | .float token =>
    if marks && isFloatToken token.toList then .string (marker ++ token) else .float token
  | .array items => .array (viewItems keep marks items)
  | .tables elements => .tables (viewTables keep marks elements)
  | .table origin entries => .table origin (viewEntries keep marks entries)
  | .string text => .string text
  | .boolean b => .boolean b
  | .integer value large => .integer value large
  | .datetime => .datetime

/-- The same for the elements of an array. -/
def viewItems (keep : String → Bool) (marks : Bool) : List Value → List Value
  | [] => []
  | item :: items => item.view keep marks :: viewItems keep marks items

/-- The same for tables. -/
def viewTables (keep : String → Bool) (marks : Bool) :
    List (List (String × Value)) → List (List (String × Value))
  | [] => []
  | entries :: elements => viewEntries keep marks entries :: viewTables keep marks elements

/-- The same for the entries of a table. -/
def viewEntries (keep : String → Bool) (marks : Bool) :
    List (String × Value) → List (String × Value)
  | [] => []
  | (key, v) :: entries =>
    if keep key then (key, v.view keep marks) :: viewEntries keep marks entries
    else viewEntries keep marks entries
end

/-- A value with the strings that stand for float tokens in their place. -/
def Value.marked (v : Value) : Value := v.view (fun _ => true) true

/-- A table with the strings that stand for float tokens in their place. -/
def Table.marked (t : Table) : Table := viewEntries (fun _ => true) true t

/-- A value without the entries whose keys marking can change. -/
def Value.shown (v : Value) : Value := v.view (fun key => !mayChange key) false

/-- A table without the entries whose keys marking can change. -/
def Table.shown (t : Table) : Table := viewEntries (fun key => !mayChange key) false t

variable {keep keep' : String → Bool} {marks marks' : Bool} {key : String} {v w : Value}
  {t t' u u' : Table} {path names names' : List String}

/-! ## A view of a view -/

mutual
theorem Value.view_view (v : Value) : (v.view keep marks).view keep' marks'
    = v.view (fun key => keep key && keep' key) (marks || marks') := by
  cases v with
  | float token =>
    cases h : isFloatToken token.toList <;> cases marks <;> simp [Value.view, h]
  | array items => rw [Value.view, Value.view, Value.view, viewItems_view items]
  | tables elements => rw [Value.view, Value.view, Value.view, viewTables_view elements]
  | table origin entries => rw [Value.view, Value.view, Value.view, viewEntries_view entries]
  | _ => simp only [Value.view]

theorem viewItems_view (items : List Value) : viewItems keep' marks' (viewItems keep marks items)
    = viewItems (fun key => keep key && keep' key) (marks || marks') items := by
  cases items with
  | nil => simp only [viewItems]
  | cons item items => simp only [viewItems, Value.view_view item, viewItems_view items]

theorem viewTables_view (elements : List (List (String × Value))) :
    viewTables keep' marks' (viewTables keep marks elements)
      = viewTables (fun key => keep key && keep' key) (marks || marks') elements := by
  cases elements with
  | nil => simp only [viewTables]
  | cons entries elements =>
    simp only [viewTables, viewEntries_view entries, viewTables_view elements]

theorem viewEntries_view (entries : List (String × Value)) :
    viewEntries keep' marks' (viewEntries keep marks entries)
      = viewEntries (fun key => keep key && keep' key) (marks || marks') entries := by
  cases entries with
  | nil => simp only [viewEntries]
  | cons entry entries =>
    obtain ⟨key, v⟩ := entry
    have hv := Value.view_view v
    have ht := viewEntries_view entries
    cases hk : keep key <;> cases hk' : keep' key <;> simp [viewEntries, hk, hk', hv, ht]
end

theorem Table.shown_marked (t : Table) :
    t.marked.shown = viewEntries (fun key => !mayChange key) true t := by
  unfold Table.marked Table.shown
  rw [viewEntries_view]
  simp only [Bool.true_and, Bool.true_or]

/-- Marking the floats of what is shown is showing what is marked. -/
theorem Table.marked_shown (t : Table) : t.shown.marked = t.marked.shown := by
  rw [Table.shown_marked]
  unfold Table.marked Table.shown
  rw [viewEntries_view]
  simp only [Bool.and_true, Bool.or_true]

/-! ## Views and entries -/

theorem viewItems_eq_map (items : List Value) :
    viewItems keep marks items = items.map (Value.view keep marks) := by
  induction items with
  | nil => rw [viewItems, List.map_nil]
  | cons item items ih => rw [viewItems, List.map_cons, ih]

theorem viewTables_eq_map (elements : List (List (String × Value))) :
    viewTables keep marks elements = elements.map (viewEntries keep marks) := by
  induction elements with
  | nil => rw [viewTables, List.map_nil]
  | cons entries elements ih => rw [viewTables, List.map_cons, ih]

theorem viewEntries_append (t u : Table) :
    viewEntries keep marks (t ++ u) = viewEntries keep marks t ++ viewEntries keep marks u := by
  induction t with
  | nil => rw [viewEntries, List.nil_append, List.nil_append]
  | cons entry t ih =>
    obtain ⟨key, v⟩ := entry
    rw [List.cons_append, viewEntries, viewEntries]
    split
    · rw [ih, List.cons_append]
    · exact ih

theorem get?_view (h : keep key = true) (t : Table) :
    Table.get? (viewEntries keep marks t) key = (t.get? key).map (Value.view keep marks) := by
  unfold Table.get?
  induction t with
  | nil => rw [viewEntries, List.lookup_nil, Option.map_none]
  | cons entry t ih =>
    obtain ⟨k, v⟩ := entry
    rw [viewEntries, List.lookup_cons]
    by_cases hk : key = k
    · subst hk
      simp [h]
    · have hb : (key == k) = false := by simpa using hk
      split
      · rw [List.lookup_cons, hb, ih]
      · rw [hb, ih]

theorem view_set (h : keep key = true) (v : Value) (t : Table) :
    viewEntries keep marks (t.set key v)
      = Table.set key (v.view keep marks) (viewEntries keep marks t) := by
  unfold Table.set
  induction t with
  | nil => rw [List.map_nil, viewEntries, List.map_nil]
  | cons entry t ih =>
    obtain ⟨k, w⟩ := entry
    by_cases hk : k = key
    · subst hk
      simp [viewEntries, h, ih]
    · cases hkk : keep k <;> simp [viewEntries, hk, hkk, ih]

theorem view_add (h : keep key = true) (v : Value) (t : Table) :
    viewEntries keep marks (t.add key v)
      = Table.add key (v.view keep marks) (viewEntries keep marks t) := by
  unfold Table.add
  rw [viewEntries_append, viewEntries, if_pos h, viewEntries]

theorem view_put (h : keep key = true) (v : Value) (t : Table) :
    viewEntries keep marks (t.put key v)
      = Table.put key (v.view keep marks) (viewEntries keep marks t) := by
  have hg : (Table.get? (viewEntries keep marks t) key).isSome = (t.get? key).isSome := by
    rw [get?_view h, Option.isSome_map]
  unfold Table.put
  rw [hg]
  split
  · exact view_set h v t
  · exact view_add h v t

theorem view_set_of_not_keep (h : keep key = false) (v : Value) (t : Table) :
    viewEntries keep marks (t.set key v) = viewEntries keep marks t := by
  unfold Table.set
  induction t with
  | nil => rfl
  | cons entry t ih =>
    obtain ⟨k, w⟩ := entry
    by_cases hk : k = key
    · subst hk
      simp [viewEntries, h, ih]
    · cases hv : keep k <;> simp [viewEntries, hk, hv, ih]

/-- What has a key that is not kept cannot be seen. -/
theorem view_put_of_not_keep (h : keep key = false) (v : Value) (t : Table) :
    viewEntries keep marks (t.put key v) = viewEntries keep marks t := by
  unfold Table.put
  split
  · exact view_set_of_not_keep h v t
  · unfold Table.add
    rw [viewEntries_append, viewEntries, if_neg (by simp [h]), viewEntries, List.append_nil]

/-! ## Marked and shown values -/

namespace Value

@[simp] theorem marked_string (text : String) : (string text).marked = .string text := by
  rw [marked, view]

@[simp] theorem marked_boolean (b : Bool) : (boolean b).marked = .boolean b := by
  rw [marked, view]

@[simp] theorem marked_integer (value : Int) (large : Bool) :
    (integer value large).marked = .integer value large := by
  rw [marked, view]

@[simp] theorem marked_datetime : datetime.marked = .datetime := by rw [marked, view]

@[simp] theorem marked_array (items : List Value) :
    (array items).marked = .array (items.map marked) := by
  rw [marked, view, viewItems_eq_map]
  rfl

@[simp] theorem marked_tables (elements : List Table) :
    (tables elements).marked = .tables (elements.map Table.marked) := by
  rw [marked, view, viewTables_eq_map]
  rfl

@[simp] theorem marked_table (origin : Origin) (entries : Table) :
    (table origin entries).marked = .table origin (Table.marked entries) := by
  rw [marked, view, Table.marked]

theorem marked_float (token : String) :
    (float token).marked = .string (marker ++ token) ∨ (float token).marked = .float token := by
  rw [marked, view]
  split
  · exact .inl rfl
  · exact .inr rfl

@[simp] theorem shown_string (text : String) : (string text).shown = .string text := by
  rw [shown, view]

@[simp] theorem shown_boolean (b : Bool) : (boolean b).shown = .boolean b := by
  rw [shown, view]

@[simp] theorem shown_integer (value : Int) (large : Bool) :
    (integer value large).shown = .integer value large := by
  rw [shown, view]

@[simp] theorem shown_float (token : String) : (float token).shown = .float token := by
  rw [shown, view, Bool.false_and, if_neg Bool.false_ne_true]

@[simp] theorem shown_datetime : datetime.shown = .datetime := by rw [shown, view]

@[simp] theorem shown_array (items : List Value) :
    (array items).shown = .array (items.map shown) := by
  rw [shown, view, viewItems_eq_map]
  rfl

@[simp] theorem shown_tables (elements : List Table) :
    (tables elements).shown = .tables (elements.map Table.shown) := by
  rw [shown, view, viewTables_eq_map]
  rfl

@[simp] theorem shown_table (origin : Origin) (entries : Table) :
    (table origin entries).shown = .table origin (Table.shown entries) := by
  rw [shown, view, Table.shown]

end Value

end WakeConfig.Toml
