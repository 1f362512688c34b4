import WakeConfig.Proofs.Outcomes
import WakeConfig.Proofs.Settings

/-!
# Values of a file

What a file gives to a setting: the value under its keys, if there is one, which must be of the type
of the setting. `SettingType.Gives` says this of a value, without the order in which it is checked
and the doubles that integers are turned into, and the lemmas behind it say that each check accepts
exactly such a value. An integer has to be one by its exact value, but a float is not always told
apart: one that was left unfinished, and so was not marked, counts as an integer where it is whole.
-/

namespace WakeConfig

/-! ## Readings that succeed -/

/-- A reading that starts with one trace gives a value and leaves another trace. -/
def Yields {ε σ α : Type} (r : ExceptT ε (StateM σ) α) (s : σ) (a : α) (s' : σ) : Prop :=
  (r.run.run s).1 = .ok a ∧ (r.run.run s).2 = s'

theorem bind_eq_ok {ε α β : Type} {x : Except ε α} {f : α → Except ε β} {b : β} :
    (x >>= f) = .ok b ↔ ∃ a, x = .ok a ∧ f a = .ok b := by
  cases x with
  | ok a =>
    show f a = .ok b ↔ _
    simp
  | error e =>
    show (Except.error e : Except ε β) = .ok b ↔ _
    simp

theorem yields_pure {ε σ α : Type} {a b : α} {s s' : σ} :
    Yields (pure a : ExceptT ε (StateM σ) α) s b s' ↔ a = b ∧ s = s' := by
  show (Except.ok a = Except.ok b ∧ s = s') ↔ _
  rw [Except.ok.injEq]

theorem not_yields_throw {ε σ α : Type} {e : ε} {b : α} {s s' : σ} :
    ¬ Yields (throw e : ExceptT ε (StateM σ) α) s b s' := by
  rintro ⟨h, -⟩
  cases h

theorem yields_bind {ε σ α β : Type} {r : ExceptT ε (StateM σ) α}
    {f : α → ExceptT ε (StateM σ) β} {b : β} {s s' : σ} :
    Yields (r >>= f) s b s' ↔ ∃ a s₁, Yields r s a s₁ ∧ Yields (f a) s₁ b s' := by
  unfold Yields
  rw [run_bind]
  rcases r.run.run s with ⟨x, s₁⟩
  cases x with
  | ok a =>
    constructor
    · intro h
      exact ⟨a, s₁, ⟨rfl, rfl⟩, h⟩
    · rintro ⟨a', _, ⟨ha, rfl⟩, h⟩
      obtain rfl := Except.ok.inj ha
      exact h
  | error e =>
    constructor
    · rintro ⟨h, -⟩
      cases h
    · rintro ⟨a, _, ⟨ha, -⟩, -⟩
      cases ha

/-! ## Rounding -/

/-- An integer that is rounded to a number in the safe range is that number. -/
theorem Binary64.roundInt_eq_iff {w : Int} {n : Nat} (hn : n ≤ maxSafe) :
    roundInt w = (n : Int) ↔ w = n := by
  unfold roundInt
  constructor
  · intro h
    split at h
    · have hzero : roundNat w.natAbs ≤ 0 := by omega
      have habs := (roundNat_le_iff (Nat.zero_le maxSafe)).1 hzero
      omega
    · have hle : roundNat w.natAbs ≤ n := by omega
      have habs := (roundNat_le_iff hn).1 hle
      rw [roundNat_of_le (by omega)] at h
      omega
  · rintro rfl
    rw [if_neg (by omega), Int.natAbs_natCast, roundNat_of_le hn]

/-! ## What a value is -/

namespace Toml.Value

/-- The text of a string. -/
def text? : Value → Option String
  | string text => some text
  | _ => none

/-- The items of an array. -/
def items? : Value → Option (List Value)
  | array items => some items
  | tables elements => some (elements.map fun entries => .table .passage entries)
  | _ => none

end Toml.Value

open Toml (Value Table)
open Toml.FloatLiteral (isMarked)

namespace SettingType

/-- A value of a file gives a value of a type. A string that starts with the float marker stands for
a float and is no text; a float that was not marked gives the whole number that it stands for. -/
def Gives (answer : String → HostAnswer) : (type : SettingType) → Toml.Value → type.Value → Prop
  | text, v, x => v = .string x ∧ isMarked x = false
  | optionalText, v, x => ∃ text, v = .string text ∧ isMarked text = false ∧ x = some text
  | flag, v, b => v = .boolean b
  | number max, v, n =>
    ((∃ large, v = .integer n large) ∨
      ∃ token, v = .float token ∧ Toml.FloatValue.whole? token = some (n : Int)) ∧ n ≤ max
  | address, v, a => ∃ text, v = .string text ∧ isMarked text = false ∧
      (SocketAddress.resolve answer text).outcome = .ok a
  | methods, v, ms => v.items? = some (ms.map fun m => .string m.name)

/-- What a type takes of what is given: a value of the type, and the default where nothing is. -/
def Takes (type : SettingType) (answer : String → HostAnswer) (fallback : type.Value)
    (v? : Option Toml.Value) (x : type.Value) : Prop :=
  match v? with
  | none => x = fallback
  | some v => type.Gives answer v x

end SettingType

/-- A setting takes what is given to it, and its default where nothing is. -/
def Setting.Takes (s : Setting) (platform : Platform) (answer : String → HostAnswer)
    (v? : Option Value) (x : s.type.Value) : Prop :=
  s.type.Takes answer (s.default platform) v? x

namespace FromToml

variable {answer : String → HostAnswer} {t : Table} {v : Value}

/-! ## Checks -/

theorem string_eq_ok {name x : String} :
    string name v = .ok x ↔ v = .string x ∧ isMarked x = false := by
  unfold string
  constructor
  · intro h
    split at h
    · rename_i text
      split at h
      · cases h
      · rename_i hmarked
        obtain rfl := Except.ok.inj h
        exact ⟨rfl, Bool.eq_false_iff.2 hmarked⟩
    · cases h
  · rintro ⟨rfl, hmarked⟩
    simp [hmarked]

theorem optionalString_eq_ok {name : String} {x : Option String} :
    (string name v).map some = .ok x ↔
      ∃ text, v = .string text ∧ isMarked text = false ∧ x = some text := by
  constructor
  · intro h
    cases hs : string name v with
    | error e =>
      rw [hs] at h
      cases h
    | ok text =>
      rw [hs] at h
      obtain ⟨hv, hmarked⟩ := string_eq_ok.1 hs
      exact ⟨text, hv, hmarked, (Except.ok.inj h).symm⟩
  · rintro ⟨text, hv, hmarked, rfl⟩
    rw [string_eq_ok.2 ⟨hv, hmarked⟩]
    rfl

theorem boolean_eq_ok {name : String} {b : Bool} : boolean name v = .ok b ↔ v = .boolean b := by
  cases v <;> simp [boolean]

/-- The number of a value in the safe range is not changed when it becomes a double. -/
theorem whole?_eq_some_iff {n : Nat} (hn : n ≤ Binary64.maxSafe) :
    whole? v = some (n : Int) ↔ (∃ large, v = .integer n large) ∨
      ∃ token, v = .float token ∧ Toml.FloatValue.whole? token = some (n : Int) := by
  cases v with
  | integer value large => simp [whole?, Binary64.roundInt_eq_iff hn]
  | float token => simp [whole?]
  | _ => simp [whole?]

theorem unsigned_eq_ok {max n : Nat} {name : String} (hmax : max ≤ Binary64.maxSafe) :
    unsigned max name v = .ok n ↔ (SettingType.number max).Gives answer v n := by
  unfold unsigned
  constructor
  · intro h
    split at h
    · cases h
    · rename_i m hm
      split at h
      · cases h
      · obtain rfl := Except.ok.inj h
        have hnat : (m.toNat : Int) = m := Int.toNat_of_nonneg (by omega)
        have hle : m.toNat ≤ max := by omega
        rw [← hnat] at hm
        exact ⟨(whole?_eq_some_iff (Nat.le_trans hle hmax)).1 hm, hle⟩
  · rintro ⟨hv, hle : n ≤ max⟩
    rw [(whole?_eq_some_iff (Nat.le_trans hle hmax)).2 hv]
    dsimp only
    rw [if_neg (by omega), Int.toNat_natCast]

theorem method_eq_ok {name : String} {m : JoinMethod} :
    method name v = .ok m ↔ v = .string m.name := by
  have hplain : ∀ m : JoinMethod, isMarked m.name = false := by
    intro m
    cases m <;> decide
  unfold method
  rw [bind_eq_ok]
  constructor
  · rintro ⟨text, htext, h⟩
    obtain ⟨rfl, -⟩ := string_eq_ok.1 htext
    split at h
    · rename_i m' hm
      obtain rfl := Except.ok.inj h
      rw [JoinMethod.eq_name_of_ofName? hm]
    · cases h
  · rintro rfl
    refine ⟨m.name, string_eq_ok.2 ⟨rfl, hplain m⟩, ?_⟩
    rw [JoinMethod.ofName?_name]

theorem methodItems_eq_ok {name : String} {index : Nat} {items : List Value}
    {ms : List JoinMethod} :
    methodItems name index items = .ok ms ↔ items = ms.map fun m => .string m.name := by
  induction items generalizing index ms with
  | nil =>
    rw [methodItems, Except.ok.injEq, eq_comm, eq_comm (a := []), List.map_eq_nil_iff]
  | cons item items ih =>
    rw [methodItems, bind_eq_ok]
    simp only [bind_eq_ok, method_eq_ok, ih, Except.ok.injEq]
    constructor
    · rintro ⟨first, rfl, rest, rfl, rfl⟩
      rfl
    · intro h
      cases ms with
      | nil => cases h
      | cons m ms =>
        obtain ⟨hitem, hitems⟩ := List.cons.inj h
        exact ⟨m, hitem, ms, hitems, rfl⟩

theorem methods_eq_ok {name : String} {ms : List JoinMethod} :
    methods name v = .ok ms ↔ v.items? = some (ms.map fun m => .string m.name) := by
  cases v with
  | array items => rw [methods, methodItems_eq_ok, Value.items?, Option.some.injEq]
  | tables elements => rw [methods, methodItems_eq_ok, Value.items?, Option.some.injEq]
  | _ => simp [methods, Value.items?]

/-! ## Fields -/

/-- A field takes what is given to it if its check accepts exactly the values of its type. -/
theorem field_eq_ok (type : SettingType) {place key : String} {fallback x : type.Value}
    {read : String → Value → Except ConfigError type.Value}
    (hread : ∀ name v, read name v = .ok x ↔ type.Gives answer v x) :
    field t place key fallback read = .ok x ↔ type.Takes answer fallback (t.get? key) x := by
  unfold field SettingType.Takes
  cases t.get? key with
  | none =>
    show Except.ok fallback = Except.ok x ↔ x = fallback
    rw [Except.ok.injEq, eq_comm]
  | some v => exact hread _ v

theorem yields_checked {α : Type} {x : Except ConfigError α} {a : α} {h h' : List String} :
    Yields (checked x) h a h' ↔ x = .ok a ∧ h = h' := by
  show x.mapError Raised.own = .ok a ∧ h = h' ↔ _
  cases x <;> simp [Except.mapError]

theorem yields_checked_bind {α β : Type} {x : Except ConfigError α} {f : α → Reading β} {b : β}
    {h h' : List String} :
    Yields (checked x >>= f) h b h' ↔ ∃ a, x = .ok a ∧ Yields (f a) h b h' := by
  rw [yields_bind]
  constructor
  · rintro ⟨a, _, hchecked, hf⟩
    obtain ⟨hx, rfl⟩ := yields_checked.1 hchecked
    exact ⟨a, hx, hf⟩
  · rintro ⟨a, hx, hf⟩
    exact ⟨a, h, yields_checked.2 ⟨hx, rfl⟩, hf⟩

/-- The names that are looked up for what is given to an address. -/
def askedOf (v? : Option Value) : List String :=
  (v?.bind Value.text?).elim [] SocketAddress.asked

theorem run_resolved (resolver : HostResolver) (name text : String) (h : List String) :
    (resolved resolver name text).run.run h =
      ((SocketAddress.resolve (resolver h) text).outcome.mapError (.map (.badAddress name)),
        h ++ SocketAddress.asked text) := by
  rw [resolved, run_bind, ← SocketAddress.lookups_resolve (resolver h)]
  show StateT.run (ExceptT.run _) _ = _
  rw [run_bind]
  cases (SocketAddress.resolve (resolver h) text).outcome <;> rfl

theorem yields_resolved {resolver : HostResolver} {name text : String} {a : SocketAddress}
    {h h' : List String} :
    Yields (resolved resolver name text) h a h' ↔
      (SocketAddress.resolve (resolver h) text).outcome = .ok a ∧
        h' = h ++ SocketAddress.asked text := by
  rw [Yields, run_resolved]
  cases (SocketAddress.resolve (resolver h) text).outcome with
  | ok b => simp [Except.mapError, eq_comm]
  | error e => simp [Except.mapError]

theorem yields_address {resolver : HostResolver} {place key : String} {fallback a : SocketAddress}
    {h h' : List String} :
    Yields (address resolver t place key fallback) h a h' ↔
      SettingType.address.Takes (resolver h) fallback (t.get? key) a ∧
        h' = h ++ askedOf (t.get? key) := by
  unfold address SettingType.Takes
  cases t.get? key with
  | none =>
    dsimp only
    rw [yields_pure, eq_comm, eq_comm (a := h), askedOf, Option.bind_none, Option.elim_none,
      List.append_nil]
  | some v =>
    dsimp only
    rw [yields_bind]
    simp only [yields_checked, string_eq_ok, yields_resolved]
    constructor
    · rintro ⟨text, _, ⟨⟨rfl, hmarked⟩, rfl⟩, houtcome, rfl⟩
      exact ⟨⟨text, rfl, hmarked, houtcome⟩, rfl⟩
    · rintro ⟨⟨text, rfl, hmarked, houtcome⟩, rfl⟩
      exact ⟨text, h, ⟨⟨rfl, hmarked⟩, rfl⟩, houtcome, rfl⟩

theorem yields_address_bind {β : Type} {resolver : HostResolver} {place key : String}
    {fallback : SocketAddress} {f : SocketAddress → Reading β} {b : β} {h h' : List String} :
    Yields (address resolver t place key fallback >>= f) h b h' ↔
      ∃ a, SettingType.address.Takes (resolver h) fallback (t.get? key) a ∧
        Yields (f a) (h ++ askedOf (t.get? key)) b h' := by
  rw [yields_bind]
  constructor
  · rintro ⟨a, _, ha, hf⟩
    obtain ⟨htakes, rfl⟩ := yields_address.1 ha
    exact ⟨a, htakes, hf⟩
  · rintro ⟨a, htakes, hf⟩
    exact ⟨a, _, yields_address.2 ⟨htakes, rfl⟩, hf⟩

end FromToml

end WakeConfig
