import WakeConfig.Text.Json.Basic

/-!
# Parts of a tree

A tree of plain values, lists and records, in which each list and record may be sealed against
changes. A seal protects the entries of its own list or record, not what is below them. Sealing a
part seals everything in it, but it does not look into what is sealed already.
-/

namespace WakeConfig

/-- A part of a tree. -/
inductive Part where
  | value (v : Json)
  | list (hasSeal : Bool) (items : List Part)
  | record (hasSeal : Bool) (fields : List (String × Part))
  deriving Repr, Inhabited

namespace Part

/-- Whether a part cannot be changed itself. A plain value never can. -/
def isSealed : Part → Bool
  | value _ => true
  | list hasSeal _ => hasSeal
  | record hasSeal _ => hasSeal

/-! ## Whole trees -/

mutual
/-- The value that a part holds. -/
def toJson : Part → Json
  | value v => v
  | list _ items => .array (itemsToJson items)
  | record _ fields => .object (fieldsToJson fields)

/-- The values of items. -/
def itemsToJson : List Part → List Json
  | [] => []
  | item :: rest => toJson item :: itemsToJson rest

/-- The values of fields. -/
def fieldsToJson : List (String × Part) → List (String × Json)
  | [] => []
  | (name, p) :: rest => (name, toJson p) :: fieldsToJson rest
end

mutual
/-- Whether everything in a part is sealed. -/
def allSealed : Part → Bool
  | value _ => true
  | list hasSeal items => hasSeal && itemsSealed items
  | record hasSeal fields => hasSeal && fieldsSealed fields

/-- Whether everything in some items is sealed. -/
def itemsSealed : List Part → Bool
  | [] => true
  | item :: rest => allSealed item && itemsSealed rest

/-- Whether everything in some fields is sealed. -/
def fieldsSealed : List (String × Part) → Bool
  | [] => true
  | (_, p) :: rest => allSealed p && fieldsSealed rest
end

mutual
/-- Seals a part, and in it whatever is not sealed yet. -/
def close : Part → Part
  | value v => value v
  | list _ items => list true (closeItems items)
  | record _ fields => record true (closeFields fields)

/-- Seals those items that are not sealed yet. -/
def closeItems : List Part → List Part
  | [] => []
  | item :: rest => (if item.isSealed then item else close item) :: closeItems rest

/-- Seals those fields that are not sealed yet. -/
def closeFields : List (String × Part) → List (String × Part)
  | [] => []
  | (name, p) :: rest => (name, if p.isSealed then p else close p) :: closeFields rest
end

/-! ## Key paths -/

/-- The index that a key of a list spells. -/
def index? (key : String) : Option Nat :=
  key.toNat?.bind fun n => if toString n = key then some n else none

/-- The key under which a list has the number of its items. -/
def lengthKey : String := "length"

/-- The entry of a list or record under a key. -/
def child? (key : String) : Part → Option Part
  | value _ => none
  | list _ items =>
    if key = lengthKey then some (value (.ofNat items.length))
    else (index? key).bind fun i => items[i]?
  | record _ fields => fields.lookup key

/-- The part under a path of keys. -/
def get? : List String → Part → Option Part
  | [], p => some p
  | key :: rest, p => (p.child? key).bind (get? rest)

/-- Replaces the entry under a key, or adds it. -/
def putField (key : String) (p : Part) : List (String × Part) → List (String × Part)
  | [] => [(key, p)]
  | (name, q) :: rest => if name = key then (key, p) :: rest else (name, q) :: putField key p rest

/-- Puts an entry under a key, whether or not there is a seal. -/
def put (key : String) (p : Part) : Part → Option Part
  | value _ => none
  | list hasSeal items =>
    match index? key with
    | none => none
    | some i =>
      if i < items.length then some (list hasSeal (items.set i p))
      else if i = items.length then some (list hasSeal (items ++ [p]))
      else none
  | record hasSeal fields => some (record hasSeal (putField key p fields))

/-- Assigns a value under a path of keys, if the list or record that the last key belongs to is not
sealed. -/
def assign? (v : Json) : List String → Part → Option Part
  | [], _ => none
  | [key], p => if p.isSealed then none else p.put key (.value v)
  | key :: next :: rest, p =>
    (p.child? key).bind fun child =>
      (assign? v (next :: rest) child).bind fun changed => p.put key changed

/-! ## Sealed trees -/

/-- A closed part is sealed itself. -/
@[simp] theorem isSealed_close (p : Part) : p.close.isSealed = true := by
  cases p <;> simp [close, isSealed]

mutual
/-- Closing changes no value. -/
theorem toJson_close : (p : Part) → p.close.toJson = p.toJson
  | value _ => by simp [close]
  | list _ items => by simp [close, toJson, itemsToJson_close items]
  | record _ fields => by simp [close, toJson, fieldsToJson_close fields]

/-- Closing items changes no value. -/
theorem itemsToJson_close : (items : List Part) →
    itemsToJson (closeItems items) = itemsToJson items
  | [] => by simp [closeItems]
  | item :: rest => by
    have h := toJson_close item
    by_cases hs : item.isSealed <;> simp [closeItems, itemsToJson, itemsToJson_close rest, hs, h]

/-- Closing fields changes no value. -/
theorem fieldsToJson_close : (fields : List (String × Part)) →
    fieldsToJson (closeFields fields) = fieldsToJson fields
  | [] => by simp [closeFields]
  | (_, p) :: rest => by
    have h := toJson_close p
    by_cases hs : p.isSealed <;> simp [closeFields, fieldsToJson, fieldsToJson_close rest, hs, h]
end

end Part

end WakeConfig
