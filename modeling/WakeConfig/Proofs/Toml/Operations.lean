import WakeConfig.Proofs.Toml.Views

/-!
# Operations on a table

Every operation on a table gives one key a new value, which it makes of the value that is there.
`Table.alter` is this form, and an operation under a path is the same one level deeper. So what
holds of views needs only a look at how the new value is made: marking commutes with it, and of
values that look the same it makes values that look the same.
-/

namespace WakeConfig.Toml

variable {key : String} {v w : Value} {t t' u u' : Table} {path names names' : List String}
  {φ ψ : Option Value → Option Value} {f g : Table → Option Table}

/-! ## One key -/

namespace Table

/-- Gives a key the value that is made of the one it has. -/
def alter (φ : Option Value → Option Value) (key : String) (t : Table) : Option Table :=
  (φ (t.get? key)).map fun v => t.put key v

/-- Changes the table in a value, the last element of an array of tables. -/
def inside (f : Table → Option Table) : Option Value → Option Value
  | none => (f []).map (.table .passage)
  | some (.table origin entries) =>
    if origin = .inline then none else (f entries).map (.table origin)
  | some (.tables elements) =>
    match elements.getLast? with
    | none => none
    | some last => (f last).map fun inner => .tables (elements.dropLast ++ [inner])
  | some _ => none

/-- Changes the table in a value, if it has no header of its own. -/
def insidePassage (f : Table → Option Table) : Option Value → Option Value
  | none => (f []).map (.table .passage)
  | some (.table .passage entries) => (f entries).map (.table .passage)
  | some _ => none

/-- A value where there is none. -/
def given (v : Value) : Option Value → Option Value
  | none => some v
  | some _ => none

/-- A table with its header. -/
def opened : Option Value → Option Value
  | none => some (.table .header [])
  | some (.table .passage entries) => some (.table .header entries)
  | some _ => none

/-- An array of tables with one more element. -/
def extended : Option Value → Option Value
  | none => some (.tables [[]])
  | some (.tables elements) => some (.tables (elements ++ [[]]))
  | some _ => none

theorem put_of_none (h : t.get? key = none) (v : Value) : t.put key v = t.add key v := by
  rw [put, h]
  rfl

theorem put_of_some (h : t.get? key = some w) (v : Value) : t.put key v = t.set key v := by
  rw [put, h]
  rfl

theorem change_cons (f : Table → Option Table) (key : String) (path : List String) (t : Table) :
    change f (key :: path) t = t.alter (inside (change f path)) key := by
  rw [change, alter]
  cases h : t.get? key with
  | none => simp only [inside, put_of_none h, Option.map_map, Function.comp_def]
  | some v =>
    cases v with
    | table origin entries =>
      by_cases ho : origin = .inline
      · simp [inside, ho]
      · simp [inside, ho, put_of_some h, Function.comp_def]
    | tables elements =>
      cases hl : elements.getLast? <;> simp [inside, hl, put_of_some h, Function.comp_def]
    | _ => rfl

theorem assign_last (v : Value) (key : String) (t : Table) :
    assign v [key] t = t.alter (given v) key := by
  rw [assign, alter]
  cases h : t.get? key with
  | none => simp [given, put_of_none h]
  | some w => rfl

theorem assign_cons (v : Value) (key : String) (hp : path ≠ []) (t : Table) :
    assign v (key :: path) t = t.alter (insidePassage (assign v path)) key := by
  rw [assign, alter]
  · cases h : t.get? key with
    | none => simp only [insidePassage, put_of_none h, Option.map_map, Function.comp_def]
    | some w =>
      cases w with
      | table origin entries =>
        cases origin <;> simp [insidePassage, put_of_some h, Function.comp_def]
      | _ => rfl
  · exact hp

theorem openTable_eq (key : String) (t : Table) : openTable key t = t.alter opened key := by
  rw [openTable, alter]
  cases h : t.get? key with
  | none => simp [opened, put_of_none h]
  | some w =>
    cases w with
    | table origin entries => cases origin <;> simp [opened, put_of_some h]
    | _ => rfl

theorem openElement_eq (key : String) (t : Table) : openElement key t = t.alter extended key := by
  rw [openElement, alter]
  cases h : t.get? key with
  | none => simp [extended, put_of_none h]
  | some w =>
    cases w with
    | tables elements => simp [extended, put_of_some h]
    | _ => rfl

/-- Changes the table that a path but for its last key leads to, at that key. -/
def changeAt (add : String → Table → Option Table) (names : List String) (t : Table) :
    Option Table :=
  match names.getLast? with
  | none => none
  | some last => change (add last) names.dropLast t

theorem changeAt_last (add : String → Table → Option Table) (key : String) (t : Table) :
    changeAt add [key] t = add key t := rfl

theorem changeAt_cons (add : String → Table → Option Table) (key : String) (hp : path ≠ [])
    (t : Table) : changeAt add (key :: path) t = t.alter (inside (changeAt add path)) key := by
  obtain ⟨next, path, rfl⟩ := List.exists_cons_of_ne_nil hp
  obtain ⟨last, hl⟩ : ∃ last, (next :: path).getLast? = some last :=
    ⟨_, List.getLast?_eq_some_getLast hp⟩
  have hc : changeAt add (next :: path) = change (add last) (next :: path).dropLast := by
    funext t
    rw [changeAt, hl]
  rw [hc, changeAt, List.getLast?_cons_cons, hl, List.dropLast_cons_cons]
  exact change_cons _ _ _ _

/-! ## Marking -/

/-- The new value for a marked value is the marked new value. -/
def MarksValue (φ ψ : Option Value → Option Value) : Prop :=
  ∀ x, φ (x.map Value.marked) = (ψ x).map Value.marked

/-- An operation on a marked table gives the marked table. -/
def MarksTable (f g : Table → Option Table) : Prop :=
  ∀ t, f (marked t) = (g t).map marked

@[simp] theorem marked_nil : marked [] = [] := by rw [marked, viewEntries]

theorem alter_marked (h : MarksValue φ ψ) (key : String) :
    MarksTable (alter φ key) (alter ψ key) := by
  intro t
  have hg : (marked t).get? key = (t.get? key).map Value.marked := get?_view rfl t
  have hp : ∀ v, marked (t.put key v) = (marked t).put key v.marked := fun v => view_put rfl v t
  rw [alter, alter, hg, h, Option.map_map, Option.map_map]
  exact congrArg (Option.map · _) (funext fun v => (hp v).symm)

theorem inside_marked (h : MarksTable f g) : MarksValue (inside f) (inside g) := by
  intro x
  cases x with
  | none =>
    have hn := h []
    rw [marked_nil] at hn
    simp [inside, hn, Function.comp_def]
  | some v =>
    cases v with
    | table origin entries => cases origin <;> simp [inside, h entries, Function.comp_def]
    | tables elements =>
      cases hl : elements.getLast? with
      | none => simp [inside, hl]
      | some last => simp [inside, hl, h last, Function.comp_def, List.map_dropLast]
    | float token => rcases Value.marked_float token with hm | hm <;> simp [inside, hm]
    | _ => simp [inside]

theorem insidePassage_marked (h : MarksTable f g) :
    MarksValue (insidePassage f) (insidePassage g) := by
  intro x
  cases x with
  | none =>
    have hn := h []
    rw [marked_nil] at hn
    simp [insidePassage, hn, Function.comp_def]
  | some v =>
    cases v with
    | table origin entries => cases origin <;> simp [insidePassage, h entries, Function.comp_def]
    | float token => rcases Value.marked_float token with hm | hm <;> simp [insidePassage, hm]
    | _ => simp [insidePassage]

theorem given_marked (v : Value) : MarksValue (given v.marked) (given v) := by
  intro x
  cases x <;> rfl

theorem opened_marked : MarksValue opened opened := by
  intro x
  cases x with
  | none => simp [opened]
  | some v =>
    cases v with
    | table origin entries => cases origin <;> simp [opened]
    | float token => rcases Value.marked_float token with hm | hm <;> simp [opened, hm]
    | _ => simp [opened]

theorem extended_marked : MarksValue extended extended := by
  intro x
  cases x with
  | none => simp [extended]
  | some v =>
    cases v with
    | float token => rcases Value.marked_float token with hm | hm <;> simp [extended, hm]
    | _ => simp [extended]

theorem change_marked (h : MarksTable f g) (path : List String) :
    MarksTable (change f path) (change g path) := by
  induction path with
  | nil => exact h
  | cons key path ih =>
    intro t
    rw [change_cons, change_cons]
    exact alter_marked (inside_marked ih) key t

theorem assign_marked (v : Value) (names : List String) :
    MarksTable (assign v.marked names) (assign v names) := by
  induction names with
  | nil => exact fun t => rfl
  | cons key names ih =>
    intro t
    by_cases hn : names = []
    · subst hn
      rw [assign_last, assign_last]
      exact alter_marked (given_marked v) key t
    · rw [assign_cons _ key hn, assign_cons _ key hn]
      exact alter_marked (insidePassage_marked ih) key t

theorem openTable_marked (key : String) : MarksTable (openTable key) (openTable key) := by
  intro t
  rw [openTable_eq, openTable_eq]
  exact alter_marked opened_marked key t

theorem openElement_marked (key : String) : MarksTable (openElement key) (openElement key) := by
  intro t
  rw [openElement_eq, openElement_eq]
  exact alter_marked extended_marked key t

/-! ## Looking the same -/

/-- Of values that look the same, values that look the same are made. -/
def AgreesOn (φ ψ : Option Value → Option Value) : Prop :=
  ∀ x y v w, x.map Value.shown = y.map Value.shown → φ x = some v → ψ y = some w →
    v.shown = w.shown

/-- Of tables that look the same, tables that look the same are made. -/
def Agrees (f g : Table → Option Table) : Prop :=
  ∀ t u t' u', shown t = shown u → f t = some t' → g u = some u' → shown t' = shown u'

theorem alter_hidden (hk : mayChange key = true) (h : alter φ key t = some t') :
    shown t' = shown t := by
  obtain ⟨v, -, rfl⟩ := Option.map_eq_some_iff.1 h
  exact view_put_of_not_keep (by simp [hk]) v t

theorem alter_agrees (h : AgreesOn φ ψ) (key : String) : Agrees (alter φ key) (alter ψ key) := by
  intro t u t' u' htu ht hu
  by_cases hk : mayChange key = true
  · rw [alter_hidden hk ht, alter_hidden hk hu, htu]
  · have hkeep : (!mayChange key) = true := by simpa using hk
    have hg : ∀ t : Table, (t.get? key).map Value.shown = (shown t).get? key :=
      fun t => (get?_view hkeep t).symm
    obtain ⟨v, hv, rfl⟩ := Option.map_eq_some_iff.1 ht
    obtain ⟨w, hw, rfl⟩ := Option.map_eq_some_iff.1 hu
    have hp : ∀ v t, shown (put key v t) = put key v.shown (shown t) :=
      fun v t => view_put hkeep v t
    rw [hp, hp, htu, h _ _ v w (by rw [hg, hg, htu]) hv hw]

/-- It is enough to compare what is made of nothing, and what is made of two values. -/
theorem agreesOn_of
    (hnone : ∀ v w, φ none = some v → ψ none = some w → v.shown = w.shown)
    (hsome : ∀ a b v w, a.shown = b.shown → φ (some a) = some v → ψ (some b) = some w →
      v.shown = w.shown) : AgreesOn φ ψ := by
  intro x y v w hxy hv hw
  cases x with
  | none =>
    cases y with
    | none => exact hnone v w hv hw
    | some b => cases hxy
  | some a =>
    cases y with
    | none => cases hxy
    | some b => exact hsome a b v w (Option.some.inj hxy) hv hw

/-- A table with what an operation makes of what is in it. -/
theorem Agrees.map_table (h : Agrees f g) (htu : shown t = shown u) (origin : Origin)
    (hv : (f t).map (Value.table origin) = some v) (hw : (g u).map (Value.table origin) = some w) :
    v.shown = w.shown := by
  obtain ⟨t', ht, rfl⟩ := Option.map_eq_some_iff.1 hv
  obtain ⟨u', hu, rfl⟩ := Option.map_eq_some_iff.1 hw
  rw [Value.shown_table, Value.shown_table, h t u t' u' htu ht hu]

theorem inside_agrees (h : Agrees f g) : AgreesOn (inside f) (inside g) := by
  refine agreesOn_of (fun v w hv hw => h.map_table rfl .passage hv hw)
    fun a b v w hab hv hw => ?_
  cases a with
  | table origin entries =>
    cases b <;> simp at hab
    obtain ⟨rfl, hab⟩ := hab
    rw [inside] at hv hw
    split at hv
    · cases hv
    · rename_i ho
      rw [if_neg ho] at hw
      exact h.map_table hab origin hv hw
  | tables elements =>
    cases b <;> simp at hab
    have hlast := congrArg List.getLast? hab
    have hinit := congrArg List.dropLast hab
    rw [List.getLast?_map, List.getLast?_map] at hlast
    rw [← List.map_dropLast, ← List.map_dropLast] at hinit
    rw [inside] at hv hw
    split at hv
    · cases hv
    · rename_i last hl
      split at hw
      · cases hw
      · rename_i last' hl'
        rw [hl, hl'] at hlast
        obtain ⟨t, ht, rfl⟩ := Option.map_eq_some_iff.1 hv
        obtain ⟨u, hu, rfl⟩ := Option.map_eq_some_iff.1 hw
        simp [h _ _ _ _ (Option.some.inj hlast) ht hu, hinit]
  | _ => cases hv

theorem insidePassage_agrees (h : Agrees f g) :
    AgreesOn (insidePassage f) (insidePassage g) := by
  refine agreesOn_of (fun v w hv hw => h.map_table rfl .passage hv hw)
    fun a b v w hab hv hw => ?_
  cases a with
  | table origin entries =>
    cases origin <;> try cases hv
    cases b <;> simp at hab
    obtain ⟨rfl, hab⟩ := hab
    exact h.map_table hab .passage hv hw
  | _ => cases hv

theorem given_agrees (h : v.shown = w.shown) : AgreesOn (given v) (given w) := by
  refine agreesOn_of (fun a b ha hb => ?_) fun a b a' b' _ ha _ => by cases ha
  obtain rfl := Option.some.inj ha
  obtain rfl := Option.some.inj hb
  exact h

theorem opened_agrees : AgreesOn opened opened := by
  refine agreesOn_of (fun v w hv hw => ?_) fun a b v w hab hv hw => ?_
  · obtain rfl := Option.some.inj (hv.symm.trans hw)
    rfl
  · cases a with
    | table origin entries =>
      cases origin <;> try cases hv
      cases b <;> simp at hab
      obtain ⟨rfl, hab⟩ := hab
      obtain rfl := Option.some.inj hw
      simp [hab]
    | _ => cases hv

theorem extended_agrees : AgreesOn extended extended := by
  refine agreesOn_of (fun v w hv hw => ?_) fun a b v w hab hv hw => ?_
  · obtain rfl := Option.some.inj (hv.symm.trans hw)
    rfl
  · cases a with
    | tables elements =>
      cases b <;> simp at hab
      obtain rfl := Option.some.inj hv
      obtain rfl := Option.some.inj hw
      simp [hab]
    | _ => cases hv

/-! ## Respelled paths -/

theorem change_hidden (hk : mayChange key = true) (h : change f (key :: path) t = some t') :
    shown t' = shown t := by
  rw [change_cons] at h
  exact alter_hidden hk h

theorem assign_hidden (hk : mayChange key = true) (h : assign v (key :: names) t = some t') :
    shown t' = shown t := by
  by_cases hn : names = []
  · subst hn
    rw [assign_last] at h
    exact alter_hidden hk h
  · rw [assign_cons v key hn] at h
    exact alter_hidden hk h

theorem respelled_eq_nil (h : Respelled names names') : names = [] ↔ names' = [] := by
  cases h <;> simp

/-- The same change under a path and under the path respelled. -/
theorem change_agrees (h : Agrees f g) (hp : Respelled names names') :
    Agrees (change f names) (change g names') := by
  induction hp with
  | nil => exact h
  | @cons key names names' _ ih =>
    intro t u t' u' htu ht hu
    rw [change_cons] at ht hu
    exact alter_agrees (inside_agrees ih) key t u t' u' htu ht hu
  | change hk hk' =>
    intro t u t' u' htu ht hu
    rw [change_hidden hk ht, change_hidden hk' hu, htu]

theorem assign_agrees (h : v.shown = w.shown) (hp : Respelled names names') :
    Agrees (assign v names) (assign w names') := by
  induction hp with
  | nil =>
    intro t u t' u' _ ht
    cases ht
  | @cons key names names' hn ih =>
    intro t u t' u' htu ht hu
    by_cases he : names = []
    · have he' := (respelled_eq_nil hn).1 he
      subst he he'
      rw [assign_last] at ht hu
      exact alter_agrees (given_agrees h) key t u t' u' htu ht hu
    · have he' : names' ≠ [] := fun h => he ((respelled_eq_nil hn).2 h)
      rw [assign_cons v key he] at ht
      rw [assign_cons w key he'] at hu
      exact alter_agrees (insidePassage_agrees ih) key t u t' u' htu ht hu
  | change hk hk' =>
    intro t u t' u' htu ht hu
    rw [assign_hidden hk ht, assign_hidden hk' hu, htu]

/-- The same table or element opened under a path and under the path respelled. -/
theorem changeAt_agrees {add : String → Table → Option Table}
    {φ : Option Value → Option Value} (h : AgreesOn φ φ) (ha : ∀ key t, add key t = t.alter φ key)
    (hp : Respelled names names') : Agrees (changeAt add names) (changeAt add names') := by
  have hidden : ∀ {key names t t'}, mayChange key = true →
      changeAt add (key :: names) t = some t' → shown t' = shown t := by
    intro key names t t' hk ht
    by_cases he : names = []
    · subst he
      rw [changeAt_last, ha] at ht
      exact alter_hidden hk ht
    · rw [changeAt_cons add key he] at ht
      exact alter_hidden hk ht
  induction hp with
  | nil =>
    intro t u t' u' _ ht
    cases ht
  | @cons key names names' hn ih =>
    intro t u t' u' htu ht hu
    by_cases he : names = []
    · have he' := (respelled_eq_nil hn).1 he
      subst he he'
      rw [changeAt_last, ha] at ht hu
      exact alter_agrees h key t u t' u' htu ht hu
    · have he' : names' ≠ [] := fun h => he ((respelled_eq_nil hn).2 h)
      rw [changeAt_cons add key he] at ht
      rw [changeAt_cons add key he'] at hu
      exact alter_agrees (inside_agrees ih) key t u t' u' htu ht hu
  | change hk hk' =>
    intro t u t' u' htu ht hu
    rw [hidden hk ht, hidden hk' hu, htu]

end Table

end WakeConfig.Toml
