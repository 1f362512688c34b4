import WakeConfig.Config.FromEnvironment
import WakeConfig.Config.FromToml

/-!
# Outcomes of readings

A tree is built by readings that keep a trace and may end with an error. This file says once how
such a reading is followed: `Settles` states what an outcome is, a value that meets one condition
or an error that meets another, and `Ends` states it of a reading, whatever its trace was before.
Both pass through the steps of a reading, so a statement about a builder follows its text.
-/

namespace WakeConfig

/-! ## Outcomes -/

/-- An outcome is a value that meets one condition or an error that meets another. -/
def Settles (good : α → Prop) (bad : ε → Prop) : Except ε α → Prop
  | .ok a => good a
  | .error e => bad e

namespace Settles

variable {ε α β : Type} {good good' : α → Prop} {bad : ε → Prop} {after : β → Prop}

theorem ok {a : α} (h : good a) : Settles good bad (.ok a : Except ε α) := h

theorem error {e : ε} (h : bad e) : Settles good bad (.error e : Except ε α) := h

theorem mono {x : Except ε α} (hx : Settles good bad x) (h : ∀ a, good a → good' a) :
    Settles good' bad x := by
  cases x with
  | ok a => exact h a hx
  | error e => exact hx

theorem bind {x : Except ε α} {f : α → Except ε β} (hx : Settles good bad x)
    (hf : ∀ a, good a → Settles after bad (f a)) : Settles after bad (x >>= f) := by
  cases x with
  | ok a => exact hf a hx
  | error e => exact hx

/-- A step whose value does not matter. -/
theorem step {x : Except ε α} {f : α → Except ε β} (hx : Settles (fun _ => True) bad x)
    (hf : ∀ a, Settles after bad (f a)) : Settles after bad (x >>= f) :=
  hx.bind fun a _ => hf a

theorem map {x : Except ε α} {f : α → β} (hx : Settles good bad x)
    (h : ∀ a, good a → after (f a)) : Settles after bad (x.map f) := by
  cases x with
  | ok a => exact h a hx
  | error e => exact hx

/-- Nothing is said of the errors. -/
theorem of_ok {x : Except ε α} (h : ∀ a, x = .ok a → good a) :
    Settles good (fun _ => True) x := by
  cases x with
  | ok a => exact h a rfl
  | error e => trivial

theorem value {x : Except ε α} {a : α} (hx : Settles good bad x) (h : x = .ok a) : good a := by
  subst h
  exact hx

theorem reason {x : Except ε α} {e : ε} (hx : Settles good bad x) (h : x = .error e) : bad e := by
  subst h
  exact hx

end Settles

theorem eq_ok_of_toOption {ε α : Type} {x : Except ε α} {a : α} (h : x.toOption = some a) :
    x = .ok a := by
  cases x with
  | ok b => rw [Option.some.inj h]
  | error e => cases h

/-- An outcome that gives something is a value. -/
theorem exists_ok {ε α : Type} {x : Except ε α} (h : x.toOption.isSome = true) :
    ∃ a, x = .ok a := by
  obtain ⟨a, ha⟩ := Option.isSome_iff_exists.1 h
  exact ⟨a, eq_ok_of_toOption ha⟩

/-- An own error meets a condition. Nothing is said of a foreign one. -/
def Raised.IfOwn (bad : ε → Prop) : Raised ε → Prop
  | own cause => bad cause
  | foreign _ => True

/-! ## Readings -/

/-- A reading goes on with what its first step gave, from the trace that this step left. -/
theorem run_bind {ε σ α β : Type} (r : ExceptT ε (StateM σ) α) (f : α → ExceptT ε (StateM σ) β)
    (s : σ) :
    (r >>= f).run.run s = match r.run.run s with
      | (.ok a, s') => (f a).run.run s'
      | (.error e, s') => (.error e, s') := by
  show StateT.run (ExceptT.bindCont f (StateT.run r.run s).1) (StateT.run r.run s).2 = _
  rcases StateT.run r.run s with ⟨x, s'⟩
  cases x <;> rfl

/-- Whatever its trace was, a reading ends with a value that meets one condition or with an error
that meets another. -/
def Ends (good : α → Prop) (bad : ε → Prop) (r : ExceptT ε (StateM σ) α) : Prop :=
  ∀ s, Settles good bad (r.run.run s).1

namespace Ends

variable {ε σ α β : Type} {good : α → Prop} {bad : ε → Prop} {after : β → Prop}

theorem pure {a : α} (h : good a) :
    Ends good bad (Pure.pure a : ExceptT ε (StateM σ) α) := fun _ => h

theorem throw {e : ε} (h : bad e) :
    Ends good bad (MonadExcept.throw e : ExceptT ε (StateM σ) α) := fun _ => h

theorem bind {r : ExceptT ε (StateM σ) α} {f : α → ExceptT ε (StateM σ) β}
    (hr : Ends good bad r) (hf : ∀ a, good a → Ends after bad (f a)) :
    Ends after bad (r >>= f) := by
  intro s
  have h := hr s
  rw [run_bind]
  rcases hx : r.run.run s with ⟨x, s'⟩
  rw [hx] at h
  cases x with
  | ok a => exact hf a h s'
  | error e => exact h

/-- A step whose value does not matter. -/
theorem step {r : ExceptT ε (StateM σ) α} {f : α → ExceptT ε (StateM σ) β}
    (hr : Ends (fun _ => True) bad r) (hf : ∀ a, Ends after bad (f a)) :
    Ends after bad (r >>= f) :=
  hr.bind fun a _ => hf a

/-- A step that cannot fail. -/
theorem lift {m : StateM σ α} (h : ∀ s, good (m.run s).1) :
    Ends good bad (liftM m : ExceptT ε (StateM σ) α) := fun s => h s

/-- Nothing is said of the errors, nor of the value. -/
theorem any (r : ExceptT ε (StateM σ) α) : Ends (fun _ => True) (fun _ => True) r := by
  intro s
  exact Settles.of_ok fun _ _ => trivial

/-- A check in a reading. -/
theorem checked {x : Except ConfigError α} {bad : ConfigError → Prop} (hx : Settles good bad x) :
    Ends good (Raised.IfOwn bad) (FromToml.checked x) := by
  intro s
  cases x with
  | ok a => exact hx
  | error e => exact hx

end Ends

end WakeConfig
