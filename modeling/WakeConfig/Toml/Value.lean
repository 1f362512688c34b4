import WakeConfig.Number.Binary64

/-!
# TOML values

What a TOML document holds. An integer has its number and remembers whether it was written beyond
the range in which every integer is a double; a float keeps its token, so that the two stay apart;
of a date or time only the fact is kept. A table remembers how it was made, since that decides what
may still be added to it.
-/

namespace WakeConfig.Toml

/-- How a table came to be: by a header of its own, on the way to another key, or inline. -/
inductive Origin where
  | header
  | passage
  | inline
  deriving Repr, DecidableEq

/-- A TOML value. -/
inductive Value where
  | string (text : String)
  | boolean (value : Bool)
  | integer (value : Int) (large : Bool)
  | float (token : String)
  | datetime
  | array (items : List Value)
  | tables (elements : List (List (String × Value)))
  | table (origin : Origin) (entries : List (String × Value))
  deriving Repr, Inhabited

/-- The entries of a table, in the order in which their keys were first written. -/
abbrev Table := List (String × Value)

/-! ## Equality of values -/

namespace Value

mutual
/-- Whether two values are the same. -/
def same : Value → Value → Bool
  | string a, string b => a = b
  | boolean a, boolean b => a = b
  | integer a large, integer b large' => a = b ∧ large = large'
  | float a, float b => a = b
  | datetime, datetime => true
  | array a, array b => sameItems a b
  | tables a, tables b => sameElements a b
  | table origin a, table origin' b => origin = origin' && sameEntries a b
  | _, _ => false

/-- Whether two arrays have the same items. -/
def sameItems : List Value → List Value → Bool
  | [], [] => true
  | v :: a, w :: b => v.same w && sameItems a b
  | _, _ => false

/-- Whether two tables have the same entries, in the same order. -/
def sameEntries : Table → Table → Bool
  | [], [] => true
  | (key, v) :: a, (key', w) :: b => key = key' && v.same w && sameEntries a b
  | _, _ => false

/-- Whether two arrays of tables have the same elements. -/
def sameElements : List Table → List Table → Bool
  | [], [] => true
  | t :: a, u :: b => sameEntries t u && sameElements a b
  | _, _ => false
end

mutual
theorem same_iff : (v w : Value) → (v.same w = true ↔ v = w)
  | array a, w => by cases w <;> simp [same, sameItems_iff a]
  | tables a, w => by cases w <;> simp [same, sameElements_iff a]
  | table _ a, w => by cases w <;> simp [same, sameEntries_iff a]
  | string _, w => by cases w <;> simp [same]
  | boolean _, w => by cases w <;> simp [same]
  | integer _ _, w => by cases w <;> simp [same]
  | float _, w => by cases w <;> simp [same]
  | datetime, w => by cases w <;> simp [same]

theorem sameItems_iff : (a b : List Value) → (sameItems a b = true ↔ a = b)
  | [], b => by cases b <;> simp [sameItems]
  | v :: a, b => by cases b <;> simp [sameItems, same_iff v, sameItems_iff a]

theorem sameEntries_iff : (a b : Table) → (sameEntries a b = true ↔ a = b)
  | [], b => by cases b <;> simp [sameEntries]
  | _ :: _, [] => by simp [sameEntries]
  | (key, v) :: a, (key', w) :: b => by simp [sameEntries, same_iff v, sameEntries_iff a]

theorem sameElements_iff : (a b : List Table) → (sameElements a b = true ↔ a = b)
  | [], b => by cases b <;> simp [sameElements]
  | t :: a, b => by cases b <;> simp [sameElements, sameEntries_iff t, sameElements_iff a]
end

instance : DecidableEq Value := fun v w => decidable_of_iff (v.same w = true) (same_iff v w)

end Value

/-! ## Tables -/

namespace Table

/-- The value of a key. -/
def get? (t : Table) (key : String) : Option Value := t.lookup key

/-- Replaces the value of a key that is present. -/
def set (key : String) (value : Value) (t : Table) : Table :=
  t.map fun (k, v) => if k = key then (k, value) else (k, v)

/-- Adds the value of a key that is not present. -/
def add (key : String) (value : Value) (t : Table) : Table := t ++ [(key, value)]

/-- Replaces the value of a key, or adds it. -/
def put (key : String) (value : Value) (t : Table) : Table :=
  if (t.get? key).isSome then t.set key value else t.add key value

/-- Changes the table that a path of keys leads to, the last element where a key holds an array of
tables. Missing tables are made on the way; an inline table cannot be entered. -/
def change (f : Table → Option Table) : List String → Table → Option Table
  | [], t => f t
  | key :: path, t =>
    match t.get? key with
    | none => (change f path []).map fun inner => t.add key (.table .passage inner)
    | some (.table origin entries) =>
      if origin = .inline then none
      else (change f path entries).map fun inner => t.set key (.table origin inner)
    | some (.tables elements) =>
      match elements.getLast? with
      | none => none
      | some last =>
        (change f path last).map fun inner => t.set key (.tables (elements.dropLast ++ [inner]))
    | some _ => none

/-- Gives a value to a dotted key that has none. The tables on the way must not have a header of
their own. -/
def assign (value : Value) : List String → Table → Option Table
  | [], _ => none
  | [key], t => if (t.get? key).isSome then none else some (t.add key value)
  | key :: path, t =>
    match t.get? key with
    | none => (assign value path []).map fun inner => t.add key (.table .passage inner)
    | some (.table .passage entries) =>
      (assign value path entries).map fun inner => t.set key (.table .passage inner)
    | some _ => none

/-- Gives a table its header. A table gets one header at most. -/
def openTable (key : String) (t : Table) : Option Table :=
  match t.get? key with
  | none => some (t.add key (.table .header []))
  | some (.table .passage entries) => some (t.set key (.table .header entries))
  | some _ => none

/-- Adds an element to an array of tables. An array written inline cannot be extended. -/
def openElement (key : String) (t : Table) : Option Table :=
  match t.get? key with
  | none => some (t.add key (.tables [[]]))
  | some (.tables elements) => some (t.set key (.tables (elements ++ [[]])))
  | some _ => none

theorem get?_nil (key : String) : get? [] key = none := rfl

/-- A key that was added has its value. -/
theorem get?_add_of_none {t : Table} {key : String} {value : Value} (h : t.get? key = none) :
    (t.add key value).get? key = some value := by
  unfold get? at h ⊢
  simp [add, List.lookup_append, h]

theorem get?_set (key : String) (value : Value) (t : Table) (other : String) :
    (t.set key value).get? other
      = if other = key then (t.get? key).map fun _ => value else t.get? other := by
  unfold set get?
  induction t with
  | nil => simp
  | cons entry t ih =>
    obtain ⟨k, v⟩ := entry
    rw [List.map_cons, List.lookup_cons, List.lookup_cons]
    by_cases hk : k = key
    · subst hk
      by_cases ho : other = k
      · simp [ho]
      · simp [ho, ih, List.lookup_cons, beq_eq_false_iff_ne.2 ho]
    · have hkey : (key == k) = false := beq_eq_false_iff_ne.2 (Ne.symm hk)
      rw [if_neg hk, List.lookup_cons, hkey, ih]
      by_cases ho : other = k
      · subst ho
        simp [hk]
      · simp [beq_eq_false_iff_ne.2 ho]

/-- A key that was put has its value, and all others keep theirs. -/
theorem get?_put (key : String) (value : Value) (t : Table) (other : String) :
    (t.put key value).get? other = if other = key then some value else t.get? other := by
  unfold put
  cases h : t.get? key with
  | some v => rw [Option.isSome_some, if_pos rfl, get?_set, h, Option.map_some]
  | none =>
    rw [Option.isSome_none, if_neg Bool.false_ne_true]
    by_cases ho : other = key
    · subst ho
      rw [get?_add_of_none h, if_pos rfl]
    · rw [if_neg ho, get?, get?, add, List.lookup_append, List.lookup_cons,
        beq_eq_false_iff_ne.2 ho, List.lookup_nil, Option.or_none]

end Table

/-! ## Kinds -/

/-- The types by which the elements of an array must agree. The infinities and NaN are a type of
their own. -/
inductive ElementType where
  | string
  | boolean
  | integer
  | float
  | special
  | datetime
  | array
  | table
  deriving Repr, DecidableEq

/-- Whether a float token is an infinity or NaN. -/
def isSpecialToken (token : String) : Bool :=
  token.toList.any fun c => c == 'n'

/-- The type of a value as an element of an array. -/
def Value.elementType : Value → ElementType
  | string _ => .string
  | boolean _ => .boolean
  | integer _ _ => .integer
  | float token => if isSpecialToken token then .special else .float
  | datetime => .datetime
  | array _ => .array
  | tables _ => .array
  | table _ _ => .table

/-! ## Integers -/

/-- Whether an integer is written beyond the range in which every integer is a double. -/
def isLarge (written : Int) : Bool := Binary64.maxSafe < written.natAbs

/-- The value that a written integer is read as: beyond the safe range it wraps to 64 bits with a
sign. -/
def Value.ofWritten (written : Int) : Value :=
  if isLarge written then .integer (written.bmod (powerOfTwo 64)) true
  else .integer written false

/-- A written integer is read as an integer. -/
theorem Value.exists_ofWritten (written : Int) :
    ∃ value large, ofWritten written = .integer value large := by
  unfold ofWritten
  split
  · exact ⟨_, _, rfl⟩
  · exact ⟨_, _, rfl⟩

end WakeConfig.Toml
