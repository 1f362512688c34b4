/-!
# Environments

The variables that a program is started with: names with values, each name at most once.
-/

namespace WakeConfig

/-- The variables of an environment. -/
structure Environment where
  bindings : List (String × String)
  deriving Repr, DecidableEq, Inhabited

namespace Environment

/-- The environment without variables. -/
def empty : Environment := ⟨[]⟩

/-- The value of a variable. -/
def get? (e : Environment) (name : String) : Option String := e.bindings.lookup name

/-- Gives a variable a value, or takes its value away. -/
def set (name : String) (value? : Option String) (e : Environment) : Environment :=
  let others := e.bindings.filter fun v => v.1 != name
  match value? with
  | none => ⟨others⟩
  | some value => ⟨(name, value) :: others⟩

/-- What is left of a list without the entries of one name. -/
theorem lookup_filter_ne (name other : String) (bindings : List (String × String)) :
    (bindings.filter fun v => v.1 != name).lookup other
      = if other = name then none else bindings.lookup other := by
  induction bindings with
  | nil => simp
  | cons v rest ih =>
    obtain ⟨k, x⟩ := v
    rw [List.lookup_cons]
    by_cases hk : k = name
    · subst hk
      rw [List.filter_cons_of_neg (by simp), ih]
      by_cases ho : other = k
      · simp [ho]
      · simp [ho, beq_eq_false_iff_ne.2 ho]
    · rw [List.filter_cons_of_pos (by simpa using hk), List.lookup_cons, ih]
      by_cases ho : other = name
      · subst ho
        simp [beq_eq_false_iff_ne.2 (Ne.symm hk)]
      · simp [ho]

/-- A variable that was set has the value it was set to, and all others keep theirs. -/
theorem get?_set (e : Environment) (name other : String) (value? : Option String) :
    (e.set name value?).get? other = if other = name then value? else e.get? other := by
  by_cases h : other = name
  · subst h
    cases value? <;> simp [set, get?, lookup_filter_ne]
  · cases value? <;>
      simp [set, get?, lookup_filter_ne, h, List.lookup_cons, beq_eq_false_iff_ne.2 h]

end Environment

end WakeConfig
