import WakeConfig.Proofs.FileReading

/-!
# Checks of a table

A table is read by checks that are made one after the other until one fails. `checks` lists them in
their order, `Check.fault?` says of each what it finds wrong with a table, and `Check.asks` which
host names it looks up. A reading `Performs` a list of checks if it ends with the fault of the first
one that fails, and looks up what the checks up to there look up; this is proved of single fields
here, and passes on to what is read one after the other.
-/

namespace WakeConfig

open Toml (Value Table)

/-! ## Faults -/

/-- The text of a string that does not stand for a float. -/
def Toml.Value.plainText? : Value → Option String
  | .string text => if Toml.FloatLiteral.isMarked text then none else some text
  | _ => none

/-- What is wrong with a value that a setting of a type is given, where `name` is the name of the
field. Of a list of methods this says only that it is a list. An address may also end with a foreign
error. -/
def SettingType.fault? (answer : String → HostAnswer) (name : String) :
    SettingType → Toml.Value → Option (Raised ConfigError)
  | text, v | optionalText, v =>
    if v.plainText?.isSome then none else some (.own (.wrongType name .string v.found))
  | flag, v =>
    match v with
    | .boolean _ => none
    | _ => some (.own (.wrongType name .boolean v.found))
  | number max, v =>
    match FromToml.whole? v with
    | none => some (.own (.wrongType name .integer v.found))
    | some n => if 0 ≤ n ∧ n ≤ max then none else some (.own (.outOfRange name max n))
  | address, v =>
    match v.plainText? with
    | none => some (.own (.wrongType name .string v.found))
    | some x =>
      match (SocketAddress.resolve answer x).outcome with
      | .ok _ => none
      | .error cause => some (cause.map (.badAddress name))
  | methods, v => if v.items?.isSome then none else some (.own (.wrongType name .array v.found))

/-- What is wrong with a value in a list of methods. -/
def JoinMethod.fault? (name : String) (v : Value) : Option (Raised ConfigError) :=
  match v.plainText? with
  | none => some (.own (.wrongType name .string v.found))
  | some text => if (ofName? text).isSome then none else some (.own (.unknownMethod name text))

/-- The name of a field in an error. -/
def Setting.nameIn (s : Setting) (t : Table) : String := ".".intercalate (s.keysIn t)

/-! ## Checks -/

namespace FromToml

/-- A check of a table: that a section is a table if it is there, that the section of the server is
there and has a command, that a setting is given a value of its type, and that an item of the list
of methods is a method. -/
inductive Check where
  | isTable (path : List String)
  | hasServer
  | hasCommand
  | value (s : Setting)
  | method (index : Nat) (item : Value)

namespace Check

/-- What a check finds wrong with a table. -/
def fault? (answer : String → HostAnswer) (t : Table) : Check → Option (Raised ConfigError)
  | isTable path =>
    match valueAt? path t with
    | none => none
    | some (.table _ _) => none
    | some v => some (.own (.wrongType (".".intercalate path) .table v.found))
  | hasServer => if (t.get? "server").isSome then none else some (.own (.missingSection "server"))
  | hasCommand =>
    if (Setting.serverCommand.given? t).isSome then none
    else some (.own (.missingField "server.command"))
  | value s => (s.given? t).bind (s.type.fault? answer (s.nameIn t))
  | method index item => JoinMethod.fault? s!"join.methods[{index}]" item

/-- The host names that a check looks up: the host of an address that is well-formed, unless it is
a literal. -/
def asks (t : Table) : Check → List String
  | value s =>
    if s.type = .address then
      ((s.given? t).bind Value.plainText?).elim [] SocketAddress.asked
    else []
  | _ => []

/-- The checks of a section: that it is a table, and then its settings. -/
def ofSection (path : List String) (settings : List Setting) : List Check :=
  isTable path :: settings.map value

/-- The checks of the items of a list of methods, counted from `index`. -/
def ofItems (index : Nat) (vs : List Value) : List Check :=
  (vs.zipIdx index).map fun (item, i) => method i item

end Check

/-- The values of the list of methods, if there is such a list. -/
def methodValues (t : Table) : List Value :=
  ((Setting.joinMethods.given? t).bind Value.items?).getD []

/-- The checks of the section of the server, which has to be there and to have a command. -/
def serverChecks : List Check :=
  .isTable ["server"] :: .hasServer :: .hasCommand :: List.map Check.value
    [.serverDirectory, .serverCommand, .serverAddress, .freezeProcess, .wakeOnStart, .wakeOnCrash,
     .probeOnStart, .forge, .startTimeout, .stopTimeout, .wakeWhitelist, .blockBannedIps,
     .dropBannedIps, .serverProxyV2]

/-- The checks of the section for joining players, with the sections in it. -/
def joinChecks (t : Table) : List Check :=
  Check.ofSection ["join"] [.joinMethods] ++ Check.ofItems 0 (methodValues t) ++
  Check.ofSection ["join", "kick"] [.kickStarting, .kickStopping] ++
  Check.ofSection ["join", "hold"] [.holdTimeout] ++
  Check.ofSection ["join", "forward"] [.forwardAddress, .forwardProxyV2] ++
  Check.ofSection ["join", "lobby"] [.lobbyTimeout, .lobbyMessage, .readySound]

/-- The checks of a table in their order. -/
def checks (t : Table) : List Check :=
  Check.ofSection ["public"] [.frontAddress, .frontVersion, .frontProtocol] ++
  serverChecks ++
  Check.ofSection ["time"] [.sleepAfter, .minOnlineTime] ++
  Check.ofSection ["motd"] [.motdSleeping, .motdStarting, .motdStopping, .motdFromServer] ++
  joinChecks t ++
  Check.ofSection ["lockout"] [.lockoutEnabled, .lockoutMessage] ++
  Check.ofSection ["rcon"]
    [.rconEnabled, .rconPort, .rconPassword, .randomizePassword, .rconProxyV2] ++
  Check.ofSection ["advanced"] [.rewriteProperties] ++
  Check.ofSection ["config"] [.formatVersion]

/-- The host names that checks look up, in their order. -/
def asked (t : Table) (cs : List Check) : List String := cs.flatMap (Check.asks t)

/-! ## Making checks -/

/-- Makes checks one after the other up to the first that fails: its fault, and the host names that
have been looked up. -/
def perform (resolver : HostResolver) (t : Table) :
    List Check → List String → Option (Raised ConfigError) × List String
  | [], heard => (none, heard)
  | c :: cs, heard =>
    match c.fault? (resolver heard) t with
    | some e => (some e, heard ++ c.asks t)
    | none => perform resolver t cs (heard ++ c.asks t)

variable {resolver : HostResolver} {t : Table} {cs ds : List Check} {heard : List String}

theorem perform_append :
    perform resolver t (cs ++ ds) heard =
      match perform resolver t cs heard with
      | (some e, heard') => (some e, heard')
      | (none, heard') => perform resolver t ds heard' := by
  induction cs generalizing heard with
  | nil => rfl
  | cons c cs ih =>
    simp only [List.cons_append, perform]
    split
    · rfl
    · exact ih

/-- Checks that all pass when they are made one after the other, where some names have been looked
up before. -/
def Passes (resolver : HostResolver) (t : Table) (heard : List String) (cs : List Check) : Prop :=
  ∀ before c after, cs = before ++ c :: after →
    c.fault? (resolver (heard ++ asked t before)) t = none

theorem asked_cons (c : Check) : asked t (c :: cs) = c.asks t ++ asked t cs := rfl

theorem passes_cons {c : Check} :
    Passes resolver t heard (c :: cs) ↔
      c.fault? (resolver heard) t = none ∧ Passes resolver t (heard ++ c.asks t) cs := by
  constructor
  · intro h
    refine ⟨?_, fun before d after hcs => ?_⟩
    · simpa [asked] using h [] c cs rfl
    · rw [List.append_assoc, ← asked_cons]
      exact h (c :: before) d after (by rw [hcs]; rfl)
  · rintro ⟨hc, hcs⟩ before d after heq
    cases before with
    | nil =>
      obtain ⟨rfl, rfl⟩ := List.cons.inj heq
      simpa [asked] using hc
    | cons b before =>
      obtain ⟨rfl, htail⟩ := List.cons.inj heq
      rw [asked_cons, ← List.append_assoc]
      exact hcs before d after htail

theorem perform_of_passes (h : Passes resolver t heard cs) :
    perform resolver t cs heard = (none, heard ++ asked t cs) := by
  induction cs generalizing heard with
  | nil => simp [perform, asked]
  | cons c cs ih =>
    obtain ⟨hc, hcs⟩ := passes_cons.1 h
    rw [perform, hc, asked_cons, ← List.append_assoc]
    exact ih hcs

/-- Checks that all pass, and behind them one that fails. -/
theorem perform_of_fails {c : Check} {e : Raised ConfigError} (h : Passes resolver t heard cs)
    (hc : c.fault? (resolver (heard ++ asked t cs)) t = some e) :
    perform resolver t (cs ++ c :: ds) heard = (some e, heard ++ asked t (cs ++ [c])) := by
  have hasked : heard ++ asked t (cs ++ [c]) = heard ++ asked t cs ++ c.asks t := by
    simp [asked]
  rw [perform_append, perform_of_passes h, hasked]
  simp only [perform, hc]

/-- Checks all pass, or there is a first one that fails. -/
theorem passes_or_fails (resolver : HostResolver) (t : Table) (heard : List String)
    (cs : List Check) :
    Passes resolver t heard cs ∨ ∃ before c after e, cs = before ++ c :: after ∧
      Passes resolver t heard before ∧
      c.fault? (resolver (heard ++ asked t before)) t = some e := by
  induction cs generalizing heard with
  | nil => exact .inl fun before c after h => by simp at h
  | cons c cs ih =>
    cases hc : c.fault? (resolver heard) t with
    | some e =>
      refine .inr ⟨[], c, cs, e, rfl, fun before d after h => by simp at h, ?_⟩
      simpa [asked] using hc
    | none =>
      rcases ih (heard ++ c.asks t) with hcs | ⟨before, d, after, e, rfl, hbefore, hd⟩
      · exact .inl (passes_cons.2 ⟨hc, hcs⟩)
      · refine .inr ⟨c :: before, d, after, e, rfl, passes_cons.2 ⟨hc, hbefore⟩, ?_⟩
        rw [asked_cons, ← List.append_assoc]
        exact hd

/-- The error of an outcome. -/
def fault? {ε α : Type} : Except ε α → Option ε
  | .ok _ => none
  | .error e => some e

/-- A reading makes some checks: it ends with an error exactly if one of them fails, with that of
the first one that does, and it looks up what they look up. -/
def Performs {α : Type} (resolver : HostResolver) (t : Table) (r : Reading α)
    (cs : List Check) : Prop :=
  ∀ heard, (fault? (r.run.run heard).1, (r.run.run heard).2) = perform resolver t cs heard

namespace Performs

variable {α β : Type} {r : Reading α} {c : Check}

theorem pure (a : α) : Performs resolver t (Pure.pure a : Reading α) [] := fun _ => rfl

/-- What is read one after the other makes its checks one after the other. -/
theorem bind {f : α → Reading β} (hr : Performs resolver t r cs)
    (hf : ∀ heard a heard', Yields r heard a heard' → Performs resolver t (f a) ds) :
    Performs resolver t (r >>= f) (cs ++ ds) := by
  intro heard
  have h := hr heard
  rw [perform_append, ← h, run_bind]
  rcases hrun : r.run.run heard with ⟨x, heard'⟩
  cases x with
  | error e => rfl
  | ok a => exact hf heard a heard' ⟨by rw [hrun], by rw [hrun]⟩ heard'

/-- A step whose value does not matter to the checks behind it. -/
theorem step {f : α → Reading β} (hr : Performs resolver t r [c])
    (hf : ∀ a, Performs resolver t (f a) ds) : Performs resolver t (r >>= f) (c :: ds) :=
  hr.bind fun _ a _ _ => hf a

/-- The last step of a reading. -/
theorem last {f : α → β} (hr : Performs resolver t r cs) :
    Performs resolver t (r >>= fun a => Pure.pure (f a)) cs := by
  have h : Performs resolver t (r >>= fun a => Pure.pure (f a)) (cs ++ []) :=
    hr.bind fun _ a _ _ => pure (f a)
  rwa [List.append_nil] at h

/-- A check that passes and looks up nothing. -/
theorem passes (hpass : ∀ answer, c.fault? answer t = none) (hasks : c.asks t = [])
    (hr : Performs resolver t r cs) : Performs resolver t r (c :: cs) := by
  intro heard
  rw [perform, hpass, hasks, List.append_nil]
  exact hr heard

/-- A check that fails: nothing behind it is reached. -/
theorem fails {e : Raised ConfigError} (hfail : ∀ answer, c.fault? answer t = some e)
    (hasks : c.asks t = []) : Performs resolver t (throw e : Reading α) (c :: cs) := by
  intro heard
  rw [perform, hfail, hasks, List.append_nil]
  rfl

/-- A check without lookups. -/
theorem checked {x : Except ConfigError α} (hasks : c.asks t = [])
    (hx : ∀ answer, (fault? x).map .own = c.fault? answer t) :
    Performs resolver t (FromToml.checked x) [c] := by
  intro heard
  rw [perform, hasks, List.append_nil, ← hx (resolver heard)]
  cases x <;> rfl

end Performs

theorem checked_bind {α β : Type} (x : Except ConfigError α) (f : α → Except ConfigError β) :
    checked (x >>= f) = checked x >>= fun a => checked (f a) := by
  cases x <;> rfl

/-! ## Single fields -/

section Fields

variable (answer : String → HostAnswer) {v : Value} {name : String}

theorem string_of_plainText? : string name v =
    match v.plainText? with
    | some text => .ok text
    | none => .error (.wrongType name .string v.found) := by
  cases v with
  | string text =>
    by_cases h : Toml.FloatLiteral.isMarked text = true
    · simp [string, Value.plainText?, Value.found, h]
    · simp [string, Value.plainText?, h]
  | _ => rfl

theorem plainText?_eq_some_iff {text : String} :
    v.plainText? = some text ↔ v = .string text ∧ Toml.FloatLiteral.isMarked text = false := by
  have hstring : string "" v = .ok text ↔ _ := string_eq_ok
  rw [← hstring, string_of_plainText?]
  cases v.plainText? <;> simp

theorem fault?_string :
    (fault? (string name v)).map .own = SettingType.text.fault? answer name v := by
  rw [string_of_plainText?, SettingType.fault?]
  cases v.plainText? <;> rfl

theorem fault?_optionalString :
    (fault? ((string name v).map some)).map .own
      = SettingType.optionalText.fault? answer name v := by
  rw [string_of_plainText?, SettingType.fault?]
  cases v.plainText? <;> rfl

theorem fault?_boolean :
    (fault? (boolean name v)).map .own = SettingType.flag.fault? answer name v := by
  cases v <;> rfl

theorem fault?_unsigned {max : Nat} :
    (fault? (unsigned max name v)).map .own = (SettingType.number max).fault? answer name v := by
  unfold unsigned SettingType.fault?
  dsimp only
  cases whole? v with
  | none => rfl
  | some n =>
    dsimp only
    by_cases h : n < 0 ∨ max < n
    · rw [if_pos h, if_neg (by omega)]
      rfl
    · rw [if_neg h, if_pos (by omega)]
      rfl

theorem fault?_method : (fault? (method name v)).map .own = JoinMethod.fault? name v := by
  unfold method JoinMethod.fault?
  rw [string_of_plainText?]
  cases v.plainText? with
  | none => rfl
  | some text =>
    cases h : JoinMethod.ofName? text <;> simp [bind, Except.bind, h, fault?]

variable {s : Setting} {sec : Table} {place key : String}

/-- A field that is no address and no list. -/
theorem performs_field {α : Type} {fallback : α} {read : String → Value → Except ConfigError α}
    (hgiven : s.given? t = sec.get? key) (hname : s.nameIn t = s!"{place}.{key}")
    (htype : s.type ≠ .address)
    (hread : ∀ answer name v,
      (FromToml.fault? (read name v)).map .own = s.type.fault? answer name v) :
    Performs resolver t (checked (field sec place key fallback read)) [.value s] := by
  refine .checked (if_neg htype) fun answer => ?_
  rw [Check.fault?, hgiven, hname, field]
  cases sec.get? key with
  | none => rfl
  | some v => exact hread answer _ v

theorem performs_text {fallback : String} (htype : s.type = .text)
    (hgiven : s.given? t = sec.get? key) (hname : s.nameIn t = s!"{place}.{key}") :
    Performs resolver t (checked (field sec place key fallback string)) [.value s] := by
  refine performs_field hgiven hname (by simp [htype]) fun answer name v => ?_
  rw [htype]
  exact fault?_string answer

theorem performs_optionalText {fallback : Option String} (htype : s.type = .optionalText)
    (hgiven : s.given? t = sec.get? key) (hname : s.nameIn t = s!"{place}.{key}") :
    Performs resolver t
      (checked (field sec place key fallback fun name v => (string name v).map some))
      [.value s] := by
  refine performs_field hgiven hname (by simp [htype]) fun answer name v => ?_
  rw [htype]
  exact fault?_optionalString answer

theorem performs_flag {fallback : Bool} (htype : s.type = .flag)
    (hgiven : s.given? t = sec.get? key) (hname : s.nameIn t = s!"{place}.{key}") :
    Performs resolver t (checked (field sec place key fallback boolean)) [.value s] := by
  refine performs_field hgiven hname (by simp [htype]) fun answer name v => ?_
  rw [htype]
  exact fault?_boolean answer

theorem performs_number {max fallback : Nat} (htype : s.type = .number max)
    (hgiven : s.given? t = sec.get? key) (hname : s.nameIn t = s!"{place}.{key}") :
    Performs resolver t (checked (field sec place key fallback (unsigned max))) [.value s] := by
  refine performs_field hgiven hname (by simp [htype]) fun answer name v => ?_
  rw [htype]
  exact fault?_unsigned answer

/-- An address looks up its host before it can fail. -/
theorem performs_address {fallback : SocketAddress} (htype : s.type = .address)
    (hgiven : s.given? t = sec.get? key) (hname : s.nameIn t = s!"{place}.{key}") :
    Performs resolver t (address resolver sec place key fallback) [.value s] := by
  intro heard
  simp only [perform, Check.fault?, Check.asks, htype, if_true, hgiven, hname, address]
  cases sec.get? key with
  | none => exact congrArg (Prod.mk none) (List.append_nil heard).symm
  | some v =>
    simp only [Option.bind_some, SettingType.fault?, string_of_plainText?, run_bind]
    cases v.plainText? with
    | none => exact congrArg (Prod.mk _) (List.append_nil heard).symm
    | some text =>
      show (fault? ((resolved resolver _ text).run.run heard).1,
        ((resolved resolver _ text).run.run heard).2) = _
      rw [run_resolved]
      dsimp only
      cases (SocketAddress.resolve (resolver heard) text).outcome <;> rfl

/-! ## Methods -/

theorem methods_of_items? : methods name v =
    match v.items? with
    | some vs => methodItems name 0 vs
    | none => .error (.wrongType name .array v.found) := by
  cases v <;> rfl

theorem performs_items (index : Nat) (vs : List Value) :
    Performs resolver t (checked (methodItems "join.methods" index vs))
      (Check.ofItems index vs) := by
  induction vs generalizing index with
  | nil => exact .pure _
  | cons v vs ih =>
    have hitem : Performs resolver t
        (checked (method s!"join.methods[{index}]" v)) [.method index v] :=
      .checked rfl fun _ => fault?_method
    simp only [methodItems, checked_bind]
    exact hitem.step fun _ => (ih (index + 1)).last

/-- A list of methods is checked item by item, once it is a list. -/
theorem performs_methods {fallback : List JoinMethod} :
    Performs resolver t (checked (field (sectionOf t "join") "join" "methods" fallback methods))
      (.value .joinMethods :: Check.ofItems 0 (methodValues t)) := by
  have hgiven : Setting.joinMethods.given? t = (sectionOf t "join").get? "methods" := rfl
  rw [field, methodValues, hgiven]
  cases hv : (sectionOf t "join").get? "methods" with
  | none => exact .passes (fun _ => by rw [Check.fault?, hgiven, hv]; rfl) rfl (.pure _)
  | some v =>
    dsimp only
    rw [methods_of_items?, Option.bind_some]
    cases hvs : v.items? with
    | none =>
      show Performs resolver t (throw (.own (.wrongType s!"join.methods" .array v.found))) _
      refine .fails (fun answer => ?_) rfl
      rw [Check.fault?, hgiven, hv, Option.bind_some]
      simp [SettingType.fault?, Setting.type, Setting.place, hvs]
      rfl
    | some vs =>
      refine .passes (fun answer => ?_) rfl (performs_items 0 vs)
      rw [Check.fault?, hgiven, hv, Option.bind_some]
      simp [SettingType.fault?, Setting.type, Setting.place, hvs]

end Fields

/-! ## Lookups -/

theorem asked_ofItems (t : Table) (index : Nat) (vs : List Value) :
    asked t (Check.ofItems index vs) = [] := by
  rw [asked, Check.ofItems, List.flatMap_map, List.flatMap_eq_nil_iff]
  exact fun _ _ => rfl

/-- The names that all checks of a table look up are those of its three addresses. -/
theorem asked_checks (t : Table) :
    asked t (checks t) = (Check.value .frontAddress).asks t ++
      (Check.value .serverAddress).asks t ++ (Check.value .forwardAddress).asks t := by
  have hitems := asked_ofItems t 0 (methodValues t)
  simp only [asked] at hitems
  simp [asked, checks, serverChecks, joinChecks, Check.ofSection, hitems, Check.asks, Setting.type,
    Setting.place]

theorem length_asks_le (t : Table) (c : Check) : (c.asks t).length ≤ 1 := by
  cases c with
  | value s =>
    rw [Check.asks]
    split
    · cases (s.given? t).bind Value.plainText? with
      | none => exact Nat.zero_le 1
      | some text =>
        rw [Option.elim_some, ← SocketAddress.lookups_resolve fun _ => .addresses []]
        exact SocketAddress.length_lookups_resolve _ text
    · exact Nat.zero_le 1
  | _ => exact Nat.zero_le 1

theorem mem_asked_iff {address host : String} :
    host ∈ SocketAddress.asked address ↔ ∃ parts, SocketAddress.split address = .ok parts ∧
      SocketAddress.ofLiteral? parts.host parts.port = none ∧ host = parts.host := by
  unfold SocketAddress.asked
  cases SocketAddress.split address with
  | error e => simp
  | ok parts =>
    cases h : SocketAddress.ofLiteral? parts.host parts.port <;> simp [h]

/-- What a check looks up: the host of a well-formed address that is no literal. -/
theorem mem_asks_iff {c : Check} {host : String} :
    host ∈ c.asks t ↔ ∃ s text parts, c = .value s ∧ s.type = .address ∧
      s.given? t = some (.string text) ∧ Toml.FloatLiteral.isMarked text = false ∧
      SocketAddress.split text = .ok parts ∧
      SocketAddress.ofLiteral? parts.host parts.port = none ∧ host = parts.host := by
  constructor
  · intro h
    cases c with
    | value s =>
      rw [Check.asks] at h
      split at h
      · rename_i htype
        cases hv : (s.given? t).bind Value.plainText? with
        | none =>
          rw [hv] at h
          cases h
        | some text =>
          rw [hv, Option.elim_some, mem_asked_iff] at h
          obtain ⟨v, hgiven, hplain⟩ := Option.bind_eq_some_iff.1 hv
          obtain ⟨rfl, hunmarked⟩ := plainText?_eq_some_iff.1 hplain
          obtain ⟨parts, hparts⟩ := h
          exact ⟨s, text, parts, rfl, htype, hgiven, hunmarked, hparts⟩
      · cases h
    | _ => cases h
  · rintro ⟨s, text, parts, rfl, htype, hgiven, hunmarked, hparts⟩
    have hplain : (Value.string text).plainText? = some text :=
      plainText?_eq_some_iff.2 ⟨rfl, hunmarked⟩
    rw [Check.asks, if_pos htype, hgiven, Option.bind_some, hplain, Option.elim_some,
      mem_asked_iff]
    exact ⟨parts, hparts⟩

/-! ## Foreign faults -/

/-- Only the text of an address raises what a setting is given wrong. -/
theorem fault?_eq_foreign_iff {answer : String → HostAnswer} {name : String} {type : SettingType}
    {v : Value} {raised : LookupError} :
    type.fault? answer name v = some (.foreign raised) ↔
      type = .address ∧ ∃ text ∈ v.plainText?, SocketAddress.Raises answer text raised := by
  cases type with
  | address =>
    rw [SettingType.fault?]
    cases v.plainText? with
    | none => simp
    | some text =>
      have hresolve := @SocketAddress.resolve_eq_foreign_iff answer text raised
      dsimp only
      cases houtcome : (SocketAddress.resolve answer text).outcome with
      | ok a => simpa [houtcome] using hresolve
      | error cause => cases cause <;> simpa [houtcome, Raised.map] using hresolve
  | number max =>
    rw [SettingType.fault?]
    cases whole? v with
    | none => simp
    | some n => by_cases h : 0 ≤ n ∧ n ≤ max <;> simp [h]
  | flag => cases v <;> simp [SettingType.fault?]
  | _ =>
    simp only [SettingType.fault?]
    split <;> simp

namespace Check

/-- The check of a value fails with a foreign error exactly if it looks a name up that is refused
without a text. -/
theorem fault?_value_eq_foreign_iff {s : Setting} {raised : LookupError}
    (hheard : ¬ SocketAddress.RefusedLast resolver heard raised) :
    (value s).fault? (resolver heard) t = some (.foreign raised) ↔
      SocketAddress.RefusedLast resolver (heard ++ (value s).asks t) raised := by
  rw [fault?, asks, Option.bind_eq_some_iff]
  simp only [FromToml.fault?_eq_foreign_iff]
  by_cases htype : s.type = .address
  · rw [if_pos htype]
    cases hgiven : (s.given? t).bind Value.plainText? with
    | none =>
      rw [Option.elim_none, List.append_nil]
      refine iff_of_false ?_ hheard
      rintro ⟨v, hv, -, text, htext, -⟩
      rw [hv, Option.bind_some, htext] at hgiven
      cases hgiven
    | some text =>
      rw [Option.elim_some, SocketAddress.refusedLast_append_asked hheard]
      obtain ⟨v, hv, htext⟩ := Option.bind_eq_some_iff.1 hgiven
      simp [hv, htext, htype]
  · rw [if_neg htype, List.append_nil]
    refine iff_of_false ?_ hheard
    rintro ⟨v, -, haddress, -⟩
    exact htype haddress

/-- No other check looks a name up. -/
theorem asks_eq_nil {c : Check} (hc : ∀ s, c ≠ value s) : c.asks t = [] := by
  cases c with
  | value s => exact absurd rfl (hc s)
  | _ => rfl

/-- No other check fails with a foreign error. -/
theorem fault?_ne_foreign {answer : String → HostAnswer} {c : Check} (hc : ∀ s, c ≠ value s)
    (raised : LookupError) : c.fault? answer t ≠ some (.foreign raised) := by
  cases c with
  | value s => exact absurd rfl (hc s)
  | method index item =>
    rw [fault?, JoinMethod.fault?]
    split
    · simp
    · split <;> simp
  | _ =>
    rw [fault?]
    split <;> simp

/-- A check fails with a foreign error exactly if it looks a name up that is refused without a
text. -/
theorem fault?_eq_foreign_iff {c : Check} {raised : LookupError}
    (hheard : ¬ SocketAddress.RefusedLast resolver heard raised) :
    c.fault? (resolver heard) t = some (.foreign raised) ↔
      SocketAddress.RefusedLast resolver (heard ++ c.asks t) raised := by
  by_cases hvalue : ∃ s, c = value s
  · obtain ⟨s, rfl⟩ := hvalue
    exact fault?_value_eq_foreign_iff hheard
  · have hc : ∀ s, c ≠ value s := fun s h => hvalue ⟨s, h⟩
    rw [asks_eq_nil hc, List.append_nil]
    exact iff_of_false (fault?_ne_foreign hc raised) hheard

end Check

/-- Checks end with a foreign error exactly if the last name that is looked up is refused without a
text. -/
theorem perform_eq_foreign_iff {raised : LookupError}
    (hheard : ¬ SocketAddress.RefusedLast resolver heard raised) :
    (perform resolver t cs heard).1 = some (.foreign raised) ↔
      SocketAddress.RefusedLast resolver (perform resolver t cs heard).2 raised := by
  induction cs generalizing heard with
  | nil => simpa [perform] using hheard
  | cons c cs ih =>
    have hc := @Check.fault?_eq_foreign_iff resolver t heard c raised hheard
    rw [perform]
    cases hfault : c.fault? (resolver heard) t with
    | some e => rwa [hfault] at hc
    | none =>
      rw [hfault] at hc
      exact ih fun h => nomatch hc.2 h

/-! ## Sections -/

theorem performs_subtable {sec : Table} {path : List String} {key name : String}
    (hvalue : valueAt? path t = sec.get? key) (hname : ".".intercalate path = name) :
    Performs resolver t (checked (subtable (some sec) key name)) [.isTable path] := by
  refine .checked rfl fun answer => ?_
  rw [Check.fault?, hvalue, hname, subtable, Option.bind_some]
  cases sec.get? key with
  | none => rfl
  | some v => cases v <;> rfl

theorem eq_sectionTable?_of_subtable {sec : Table} {key name : String} {t? : Option Table}
    (h : subtable (some sec) key name = .ok t?) : t? = sectionTable? sec key := by
  have hsome : ∃ s?, subtable (some sec) key name = .ok s? ∧ t? = s? := ⟨t?, h, rfl⟩
  exact (exists_subtable_iff.1 hsome).2

/-- A section is checked to be a table before its fields are checked. A section that is missing is
checked like an empty one. -/
theorem performs_section {α : Type} {sec : Table} {path : List String} {key name : String}
    {read : Option Table → Reading α} (hvalue : valueAt? path t = sec.get? key)
    (hname : ".".intercalate path = name) (hnone : read none = read (some []))
    (hread : Performs resolver t (read (some (sectionOf sec key))) cs) :
    Performs resolver t (checked (subtable (some sec) key name) >>= read)
      (.isTable path :: cs) := by
  refine (performs_subtable hvalue hname).bind fun heard t? heard' ht => ?_
  rw [eq_sectionTable?_of_subtable (yields_checked.1 ht).1, read_section hnone]
  exact hread

end FromToml

end WakeConfig
