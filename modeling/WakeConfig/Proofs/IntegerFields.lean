import WakeConfig.Proofs.SecondReading

/-!
# Integer fields of a file

The fields of a tree that are whole numbers, each with its place in a file and its place in the
tree. What a file gives to such a field is an integer, or a float that is left unfinished and so is
not marked: `integerFields_of_parse`.
-/

namespace WakeConfig.FromToml

open Toml (Value Table Document document? read?)
open Toml.FloatLiteral (mark isFloatToken)

/-! ## The fields -/

/-- A field that is a whole number: the sections that lead to it in a file, its key in the last of
them, and its number in a tree. -/
structure IntegerField where
  sections : List String
  key : Table → String
  number : Config → Nat

/-- The sections under a path of keys. -/
def sectionAt? : List String → Table → Option Table
  | [], t => some t
  | key :: path, t => (sectionTable? t key).bind (sectionAt? path)

/-- The value that a table gives to a field. -/
def IntegerField.given? (f : IntegerField) (t : Table) : Option Value :=
  (sectionAt? f.sections t).bind fun s => s.get? (f.key s)

/-- The fields of a tree that are whole numbers. -/
def integerFields : List IntegerField :=
  [⟨["public"], fun _ => "protocol", (·.front.protocol)⟩,
   ⟨["server"], fun _ => "start_timeout", (·.server.startTimeout)⟩,
   ⟨["server"], fun _ => "stop_timeout", (·.server.stopTimeout)⟩,
   ⟨["time"], fun _ => "sleep_after", (·.time.sleepAfter)⟩,
   ⟨["time"], minOnlineKey, (·.time.minOnlineTime)⟩,
   ⟨["join", "hold"], fun _ => "timeout", (·.join.hold.timeout)⟩,
   ⟨["join", "lobby"], fun _ => "timeout", (·.join.lobby.timeout)⟩,
   ⟨["rcon"], fun _ => "port", (·.rcon.port)⟩]

/-! ## The whole tree -/

variable {t : Table}

theorem Spelled.given {path : List String} {key : Table → String} {n : Nat}
    (h : Spelled (sectionAt? path t) key n) :
    ∀ v ∈ (sectionAt? path t).bind fun s => s.get? (key s), whole? v = some (n : Int) := by
  intro v hv
  obtain ⟨s, hs, hv⟩ := Option.bind_eq_some_iff.1 hv
  exact h s hs v hv

/-- Every whole number of a tree is that of the value that the table gives to its field. -/
theorem Describes.given {c : Config} (h : Describes t c) :
    ∀ f ∈ integerFields, ∀ v ∈ f.given? t, whole? v = some (f.number c : Int) := by
  have one : ∀ key, sectionAt? [key] t = sectionTable? t key := by simp [sectionAt?]
  have two : ∀ key next,
      sectionAt? [key, next] t = (sectionTable? t key).bind (sectionTable? · next) := by
    simp [sectionAt?]
  simp only [integerFields, List.forall_mem_cons]
  refine ⟨Spelled.given ?_, Spelled.given ?_, Spelled.given ?_, Spelled.given ?_, Spelled.given ?_,
    Spelled.given ?_, Spelled.given ?_, Spelled.given ?_, by simp⟩ <;> simp only [one, two]
  · exact h.protocol
  · exact h.startTimeout
  · exact h.stopTimeout
  · exact h.sleepAfter
  · exact h.minOnlineTime
  · exact h.holdTimeout
  · exact h.lobbyTimeout
  · exact h.rconPort

/-! ## Marked tables -/

theorem get?_marked (t : Table) (key : String) :
    t.marked.get? key = (t.get? key).map Value.marked :=
  Toml.get?_view rfl t

theorem sectionTable?_marked (t : Table) (key : String) :
    sectionTable? t.marked key = (sectionTable? t key).map Table.marked := by
  rw [sectionTable?, sectionTable?, get?_marked]
  cases t.get? key with
  | none => rfl
  | some v =>
    cases v with
    | float token => rcases Value.marked_float token with h | h <;> simp [h]
    | _ => simp

theorem sectionAt?_marked (path : List String) (t : Table) :
    sectionAt? path t.marked = (sectionAt? path t).map Table.marked := by
  induction path generalizing t with
  | nil => rfl
  | cons key path ih =>
    rw [sectionAt?, sectionAt?, sectionTable?_marked]
    cases sectionTable? t key with
    | none => rfl
    | some s => exact ih s

theorem key_marked {f : IntegerField} (hf : f ∈ integerFields) (t : Table) :
    f.key t.marked = f.key t := by
  have hmin : minOnlineKey t.marked = minOnlineKey t := by
    rw [minOnlineKey, minOnlineKey, get?_marked, Option.isSome_map]
  simp only [integerFields, List.mem_cons, List.not_mem_nil, or_false] at hf
  rcases hf with rfl | rfl | rfl | rfl | rfl | rfl | rfl | rfl <;> first | rfl | exact hmin

theorem given?_marked {f : IntegerField} (hf : f ∈ integerFields) (t : Table) :
    f.given? t.marked = (f.given? t).map Value.marked := by
  rw [IntegerField.given?, IntegerField.given?, sectionAt?_marked]
  cases sectionAt? f.sections t with
  | none => rfl
  | some s =>
    rw [Option.map_some, Option.bind_some, Option.bind_some, get?_marked, key_marked hf]

/-- What is a whole number after marking is that number before, and no float token. -/
theorem whole?_of_marked {v : Value} {n : Int} (h : whole? v.marked = some n) :
    whole? v = some n ∧ ∀ token, v = .float token → isFloatToken token.toList = false := by
  cases v with
  | float token =>
    rw [Value.marked, Value.view, Bool.true_and] at h
    split at h
    · cases h
    · rename_i hf
      refine ⟨h, fun token' ht => ?_⟩
      obtain rfl := Value.float.inj ht
      simpa using hf
  | integer value large => exact ⟨by simpa using h, by simp⟩
  | _ => simp [whole?] at h

/-- A file that gives floats to integer fields is refused but for those floats that are left
unfinished: each number of the tree is that of what the file gives to its field, and no integer
field is given a float exactly if each float that one is given is a float token. -/
theorem integerFields_of_parse (platform : Platform) (resolver : HostResolver) {text : String}
    {t : Table} {c : Config}
    (hk : (document? text.toList).all Document.keepsStep = true)
    (ht : read? text.toList = some t) (hc : (parse platform resolver text).result = .ok c) :
    (∀ f ∈ integerFields, ∀ v ∈ f.given? t, whole? v = some (f.number c : Int) ∧
      ∀ token, v = .float token → isFloatToken token.toList = false) ∧
    ((∀ f ∈ integerFields, ∀ token, f.given? t ≠ some (.float token)) ↔
      ∀ f ∈ integerFields, ∀ token, f.given? t = some (.float token) →
        isFloatToken token.toList = true) := by
  obtain ⟨u, hu⟩ : ∃ u, read? (mark text.toList) = some u := by
    have hsecond : table? text ≠ none := by
      intro h
      rw [(parse_notToml_iff platform resolver text).2 h] at hc
      cases hc
    rw [table?_eq, ht, Option.bind_some] at hsecond
    exact Option.ne_none_iff_exists'.1 hsecond
  rw [parse_eq_build platform resolver hk ht hu] at hc
  have hspelled := ((ends_tree platform resolver t.marked []).value hc).given
  have hfields : ∀ f ∈ integerFields, ∀ v ∈ f.given? t, whole? v = some (f.number c : Int) ∧
      ∀ token, v = .float token → isFloatToken token.toList = false := by
    intro f hf v hv
    refine whole?_of_marked (hspelled f hf v.marked ?_)
    rw [given?_marked hf, Option.mem_def.1 hv, Option.map_some]
    exact rfl
  refine ⟨hfields, fun h f hf token hv => absurd hv (h f hf token), fun h f hf token hv => ?_⟩
  have hfloat := (hfields f hf _ hv).2 token rfl
  rw [h f hf token hv] at hfloat
  cases hfloat

/-- A file that gives an integer to one field. -/
def oneInteger : String := "server = \x7bcommand = \"x\", stop_timeout = 9\x7d\n"

theorem integerFields_oneInteger :
    ∃ t c, read? oneInteger.toList = some t ∧
      (parse .other (fun _ _ => .addresses []) oneInteger).result = .ok c ∧
      (∀ f ∈ integerFields, ∀ v ∈ f.given? t, whole? v = some (f.number c : Int)) ∧
      ∀ f ∈ integerFields, ∀ token, f.given? t ≠ some (.float token) := by
  have hk : (document? oneInteger.toList).all Document.keepsStep = true := by decide +kernel
  obtain ⟨t, ht⟩ : ∃ t, read? oneInteger.toList = some t :=
    Option.isSome_iff_exists.1 (by decide +kernel)
  have hnone : (read? oneInteger.toList).all
      fun t => integerFields.all fun f => !(f.given? t).any Value.isFloat := by
    decide +kernel
  obtain ⟨c, hc⟩ :=
    exists_ok (x := (parse .other (fun _ _ => .addresses []) oneInteger).result) (by decide +kernel)
  obtain ⟨hfields, hfloat⟩ := integerFields_of_parse _ _ hk ht hc
  refine ⟨t, c, ht, hc, fun f hf v hv => (hfields f hf v hv).1, hfloat.2 fun f hf token hv => ?_⟩
  rw [ht, Option.all_some, List.all_eq_true] at hnone
  have hfree := hnone f hf
  rw [hv] at hfree
  cases hfree

/-- A file that gives an unfinished float to an integer field. -/
def unfinishedFloat : String := "server = \x7bcommand = \"x\", start_timeout = 60.\x7d\n"

/-- A file in which a local time takes a quote mark with it. -/
def hiddenFloat : String :=
  "server = \x7bcommand = \"x\", t = 07:32:00\", start_timeout = 60.0\x7d\n"

/-- Two files that give a float to an integer field and are read: it is left unfinished, or it
stands behind a quote mark that a local time has taken with it. -/
theorem integerFields_unmarked :
    (∃ f ∈ integerFields,
      ((read? unfinishedFloat.toList).bind f.given?).any Value.isFloat = true ∧
      (parse .other (fun _ _ => .addresses []) unfinishedFloat).result.toOption.any
        (fun c => f.number c == 60) = true) ∧
    ∃ f ∈ integerFields,
      ((read? hiddenFloat.toList).bind f.given?).any Value.isFloat = true ∧
      (parse .other (fun _ _ => .addresses []) hiddenFloat).result.toOption.any
        (fun c => f.number c == 60) = true := by
  have hf : integerFields[1] ∈ integerFields := List.getElem_mem _
  exact ⟨⟨_, hf, by decide +kernel, by decide +kernel⟩, _, hf, by decide +kernel, by decide +kernel⟩

end WakeConfig.FromToml
