import WakeConfig.Net.Resolve
import WakeConfig.Proofs.AddressForms

/-!
# Resolving an address text

`Resolves` says what a resolution ends with: a literal address is taken as it is, a text that is no
address text is refused, and for any other text the host is looked up, once. `resolve_exact` says
that this is what is computed, that no other answer of the resolver matters, and that the one way to
end with a foreign error is a refusal without a text.
-/

namespace WakeConfig.SocketAddress

variable {answer answer' : String → HostAnswer} {address : String} {parts : HostPort}
  {given : HostAnswer} {result : Except (Raised AddressError) SocketAddress} {r : Resolution}

/-- The error that is raised where the text of an object is asked for that has none. -/
def noText : LookupError := ⟨"TypeError", "Cannot convert object to primitive value"⟩

/-! ## Answers -/

/-- What the answer for a name makes of an address text. Of what was found the first literal is
taken, with its family and the port of the text. If there is none, or the name is refused, there is
an error with the text; a refusal is its cause, a bare value as the message of an error. What is
raised where a refusal has no text is passed on. -/
inductive Answered (address : String) (parts : HostPort) :
    HostAnswer → Except (Raised AddressError) SocketAddress → Prop
  | first {before after : List String} {ip : String} {family : Family}
      (hbefore : ∀ other ∈ before, IpAddress.family? other = none)
      (hfamily : IpAddress.family? ip = some family) :
      Answered address parts (.addresses (before ++ ip :: after)) (.ok ⟨ip, parts.port, family⟩)
  | noLiteral {found : List String} (hnone : ∀ ip ∈ found, IpAddress.family? ip = none) :
      Answered address parts (.addresses found) (.error (.own ⟨address, .unresolved parts.host⟩))
  | failed (cause : LookupError) :
      Answered address parts (.refused (.error cause))
        (.error (.own ⟨address, .lookupFailed parts.host cause⟩))
  | wrapped (text : String) :
      Answered address parts (.refused (.bare text))
        (.error (.own ⟨address, .lookupFailed parts.host ⟨"Error", text⟩⟩))
  | passedOn (raised : LookupError) :
      Answered address parts (.refused (.textless raised)) (.error (.foreign raised))

theorem ofLiteral?_eq_none_iff {host : String} {port : Nat} :
    ofLiteral? host port = none ↔ IpAddress.family? host = none := Option.map_eq_none_iff

theorem ofAnswer_eq_iff : ofAnswer address parts given = result ↔
    Answered address parts given result := by
  constructor
  · rintro rfl
    cases given with
    | refused refusal =>
      cases refusal with
      | error cause => exact .failed cause
      | bare text => exact .wrapped text
      | textless raised => exact .passedOn raised
    | addresses found =>
      unfold ofAnswer
      dsimp only
      split
      · rename_i a hfound
        obtain ⟨before, ip, after, rfl, hip, hbefore⟩ := List.findSome?_eq_some_iff.1 hfound
        obtain ⟨family, hfamily, rfl⟩ := Option.map_eq_some_iff.1 hip
        exact .first (fun other ho => ofLiteral?_eq_none_iff.1 (hbefore other ho)) hfamily
      · rename_i hfound
        have hnone := List.findSome?_eq_none_iff.1 hfound
        exact .noLiteral fun ip hip => ofLiteral?_eq_none_iff.1 (hnone ip hip)
  · intro h
    cases h with
    | @first before after ip family hbefore hfamily =>
      have hip : ofLiteral? ip parts.port = some ⟨ip, parts.port, family⟩ :=
        Option.map_eq_some_iff.2 ⟨family, hfamily, rfl⟩
      have hfound : (before ++ ip :: after).findSome? (fun ip => ofLiteral? ip parts.port)
          = some ⟨ip, parts.port, family⟩ :=
        List.findSome?_eq_some_iff.2 ⟨before, ip, after, rfl, hip,
          fun other ho => ofLiteral?_eq_none_iff.2 (hbefore other ho)⟩
      simp only [ofAnswer, hfound]
    | @noLiteral given hnone =>
      have hliterals : ∀ ip ∈ given, ofLiteral? ip parts.port = none :=
        fun ip hip => ofLiteral?_eq_none_iff.2 (hnone ip hip)
      simp only [ofAnswer, List.findSome?_eq_none_iff.2 hliterals]
    | failed cause => rfl
    | wrapped text => rfl
    | passedOn raised => rfl

theorem Answered.address_eq {e : AddressError}
    (h : Answered address parts given (.error (.own e))) :
    e.address = address := by
  cases h <;> rfl

/-- The error of an answer has a cause exactly if the name was refused. -/
theorem Answered.cause? {e : AddressError} (h : Answered address parts given (.error (.own e)))
    (cause : LookupError) :
    e.cause? = some cause ↔ ∃ refusal, given = .refused refusal ∧ refusal.cause = .ok cause := by
  cases h with
  | noLiteral => simp [AddressError.cause?]
  | failed => simp [AddressError.cause?, Refusal.cause]
  | wrapped => simp [AddressError.cause?, Refusal.cause]

/-- The error of an answer is a foreign one exactly if the name was refused without a text. -/
theorem Answered.foreign_iff (h : Answered address parts given result) (raised : LookupError) :
    result = .error (.foreign raised) ↔ given = .refused (.textless raised) := by
  cases h <;> simp

/-! ## Resolutions -/

/-- What the resolution of an address text ends with, and which names it looks up. -/
inductive Resolves (answer : String → HostAnswer) (address : String) : Resolution → Prop
  | literal {a : SocketAddress} (hparse : parse address = .ok a) :
      Resolves answer address ⟨.ok a, []⟩
  | malformed {e : AddressError} (hsplit : split address = .error e) :
      Resolves answer address ⟨.error (.own e), []⟩
  | lookedUp {parts : HostPort} {e : AddressError}
      {outcome : Except (Raised AddressError) SocketAddress}
      (hsplit : split address = .ok parts) (hparse : parse address = .error e)
      (houtcome : Answered address parts (answer parts.host) outcome) :
      Resolves answer address ⟨outcome, [parts.host]⟩

theorem ofLiteral?_of_split (h : split address = .ok parts) :
    ofLiteral? parts.host parts.port = (parse address).toOption := by
  rw [parse, h]
  simp only [bind, Except.bind]
  cases ofLiteral? parts.host parts.port <;> rfl

theorem resolve_eq_iff : resolve answer address = r ↔ Resolves answer address r := by
  constructor
  · rintro rfl
    unfold resolve
    split
    · rename_i e hsplit
      exact .malformed hsplit
    · rename_i parts hsplit
      rw [ofLiteral?_of_split hsplit]
      cases hparse : parse address with
      | ok a => exact .literal hparse
      | error e => exact .lookedUp hsplit hparse (ofAnswer_eq_iff.1 rfl)
  · intro h
    cases h with
    | @literal a hparse =>
      have hsplit := (parse_eq_ok_iff.1 hparse).1
      have hliteral := ofLiteral?_of_split hsplit
      rw [hparse] at hliteral
      simp only [resolve, hsplit, hliteral, Except.toOption]
    | malformed hsplit => simp only [resolve, hsplit]
    | lookedUp hsplit hparse houtcome =>
      have hliteral := ofLiteral?_of_split hsplit
      rw [hparse] at hliteral
      simp only [resolve, hsplit, hliteral, Except.toOption, ofAnswer_eq_iff.2 houtcome]

theorem Resolves.address_eq {e : AddressError} {lookups : List String}
    (h : Resolves answer address ⟨.error (.own e), lookups⟩) : e.address = address := by
  cases h with
  | malformed hsplit => exact address_of_split hsplit
  | lookedUp hsplit hparse houtcome => exact houtcome.address_eq

/-- A name stands in front of the colon as it is looked up: a host in brackets is a literal. -/
theorem exists_digits_of_parse {e : AddressError} (hsplit : split address = .ok parts)
    (hparse : parse address = .error e) :
    ∃ digits, address = parts.host ++ ":" ++ digits ∧ SpellsPort digits.toList parts.port := by
  obtain ⟨form, digits, hwrites⟩ := split_eq_ok_iff.1 hsplit
  cases form with
  | plain => exact ⟨digits, hwrites.text, hwrites.port⟩
  | bracketed =>
    have hliteral : parse address = .ok ⟨parts.host, parts.port, .v6⟩ :=
      parse_eq_ok_iff.2 ⟨hsplit, hwrites.host⟩
    rw [hliteral] at hparse
    cases hparse

/-- A resolution ends with a foreign error exactly if it looks a name up that is refused without a
text. -/
theorem Resolves.foreign_iff (h : Resolves answer address r) (raised : LookupError) :
    r.outcome = .error (.foreign raised) ↔
      ∃ host, r.lookups = [host] ∧ answer host = .refused (.textless raised) := by
  cases h with
  | literal | malformed => simp
  | lookedUp hsplit hparse houtcome => simp [houtcome.foreign_iff raised]

/-- The answers for names that are not looked up do not matter. -/
theorem Resolves.of_answers (h : Resolves answer address r)
    (hanswer : ∀ host ∈ r.lookups, answer' host = answer host) : Resolves answer' address r := by
  cases h with
  | literal hparse => exact .literal hparse
  | malformed hsplit => exact .malformed hsplit
  | lookedUp hsplit hparse houtcome =>
    exact .lookedUp hsplit hparse (by rwa [hanswer _ List.mem_cons_self])

/-! ## Names that are looked up -/

/-- The names that are looked up for an address text: its host, unless that is a literal. -/
def asked (address : String) : List String :=
  match split address with
  | .error _ => []
  | .ok parts => if (ofLiteral? parts.host parts.port).isSome then [] else [parts.host]

/-- At most one name is looked up. -/
theorem asked_eq_of_mem {address host : String} (h : host ∈ asked address) :
    asked address = [host] := by
  unfold asked at h ⊢
  split at h
  · cases h
  · split at h
    · cases h
    · rename_i hname
      rw [List.mem_singleton.1 h, if_neg hname]

/-- Which names are looked up does not depend on the answers. -/
theorem lookups_resolve (answer : String → HostAnswer) (address : String) :
    (resolve answer address).lookups = asked address := by
  unfold resolve asked
  cases split address with
  | error e => rfl
  | ok parts =>
    dsimp only
    cases ofLiteral? parts.host parts.port <;> rfl

/-- An address text raises an error: a name is looked up for it that is refused with something that
has no text. -/
def Raises (answer : String → HostAnswer) (text : String) (raised : LookupError) :
    Prop :=
  ∃ host ∈ asked text, answer host = .refused (.textless raised)

/-- What an address text raises is what its resolution passes on. -/
theorem resolve_eq_foreign_iff {text : String} {raised : LookupError} :
    (resolve answer text).outcome = .error (.foreign raised) ↔ Raises answer text raised := by
  have hresolves : Resolves answer text (resolve answer text) := resolve_eq_iff.1 rfl
  rw [hresolves.foreign_iff, lookups_resolve, Raises]
  constructor
  · rintro ⟨host, hasked, hrefused⟩
    exact ⟨host, hasked ▸ List.mem_singleton_self host, hrefused⟩
  · rintro ⟨host, hhost, hrefused⟩
    exact ⟨host, asked_eq_of_mem hhost, hrefused⟩

/-- The last of the names that were looked up was refused with something that has no text. -/
def RefusedLast (resolver : HostResolver) (lookups : List String) (raised : LookupError) : Prop :=
  ∃ heard host, lookups = heard ++ [host] ∧ resolver heard host = .refused (.textless raised)

theorem not_refusedLast_nil (resolver : HostResolver) (raised : LookupError) :
    ¬ RefusedLast resolver [] raised := by
  rintro ⟨heard, host, h, -⟩
  simp at h

/-- Behind names of which the last was not refused so, it is the address text whose name is. -/
theorem refusedLast_append_asked {resolver : HostResolver} {heard : List String}
    {raised : LookupError} (hheard : ¬ RefusedLast resolver heard raised) {text : String} :
    RefusedLast resolver (heard ++ asked text) raised ↔ Raises (resolver heard) text raised := by
  constructor
  · rintro ⟨heard', host, hlookups, hrefused⟩
    rcases hasked : asked text with _ | ⟨name, rest⟩
    · rw [hasked, List.append_nil] at hlookups
      exact absurd ⟨heard', host, hlookups, hrefused⟩ hheard
    · have hname : name ∈ asked text := by
        rw [hasked]
        exact List.mem_cons_self
      rw [asked_eq_of_mem hname] at hlookups
      obtain ⟨rfl, hhost⟩ := List.append_inj' hlookups rfl
      obtain rfl : name = host := by simpa using hhost
      exact ⟨name, hname, hrefused⟩
  · rintro ⟨host, hhost, hrefused⟩
    exact ⟨heard, host, by rw [asked_eq_of_mem hhost], hrefused⟩

/-- A name has one answer, so one error at most is raised. -/
theorem Raises.unique {text : String} {raised raised' : LookupError}
    (h : Raises answer text raised) (h' : Raises answer text raised') : raised = raised' := by
  rw [← resolve_eq_foreign_iff] at h h'
  cases h.symm.trans h'
  rfl

/-- **Resolving an address text.** Whatever the resolver answers, a resolution ends as `Resolves`
says and in no other way. A name that is looked up is the host as it is written in the text. An
error of a resolution holds the text, and after a lookup it has a cause exactly if the name was
refused. There is another error, the one that was raised, exactly if the name was refused with
something that has no text. No answer matters but that for the name that is looked up, so none does
for a literal. -/
theorem resolve_exact (answer : String → HostAnswer) (address : String) :
    (∀ r, resolve answer address = r ↔ Resolves answer address r) ∧
    (∀ host ∈ (resolve answer address).lookups,
      ∃ digits, address = host ++ ":" ++ digits ∧ ':' ∉ digits.toList) ∧
    (∀ e, (resolve answer address).outcome = .error (.own e) → e.address = address ∧
      ∀ host ∈ (resolve answer address).lookups, ∀ cause, e.cause? = some cause ↔
        ∃ refusal, answer host = .refused refusal ∧ refusal.cause = .ok cause) ∧
    (∀ raised, (resolve answer address).outcome = .error (.foreign raised) ↔
      ∃ host, (resolve answer address).lookups = [host] ∧
        answer host = .refused (.textless raised)) ∧
    (∀ answer', (∀ host ∈ (resolve answer address).lookups, answer' host = answer host) →
      resolve answer' address = resolve answer address) := by
  have hresolves : Resolves answer address (resolve answer address) := resolve_eq_iff.1 rfl
  refine ⟨fun r => resolve_eq_iff, ?_, ?_, hresolves.foreign_iff, fun answer' hanswer =>
    resolve_eq_iff.2 (hresolves.of_answers hanswer)⟩
  · generalize resolve answer address = r at hresolves
    cases hresolves with
    | literal | malformed => exact fun host hhost => nomatch hhost
    | lookedUp hsplit hparse houtcome =>
      intro host hhost
      obtain rfl := List.mem_singleton.1 hhost
      obtain ⟨digits, htext, hport⟩ := exists_digits_of_parse hsplit hparse
      exact ⟨digits, htext, hport.colon_not_mem⟩
  · generalize resolve answer address = r at hresolves
    intro e he
    obtain ⟨outcome, lookups⟩ := r
    obtain rfl : outcome = .error (.own e) := he
    refine ⟨hresolves.address_eq, fun host hhost cause => ?_⟩
    cases hresolves with
    | malformed => cases hhost
    | lookedUp hsplit hparse houtcome =>
      obtain rfl := List.mem_singleton.1 hhost
      exact houtcome.cause? cause

/-- Of three answers the second is the first literal, and what stands behind it does not matter; a
bare value that a name is refused with becomes an error. -/
theorem resolve_exact_name :
    resolve (fun _ => .addresses ["garbage", "2001:db8::1", "192.0.2.1"]) "mc.test:25566"
        = ⟨.ok ⟨"2001:db8::1", 25566, .v6⟩, ["mc.test"]⟩ ∧
      resolve (fun _ => .refused (.bare "5")) "mc.test:25566"
        = ⟨.error (.own ⟨"mc.test:25566", .lookupFailed "mc.test" ⟨"Error", "5"⟩⟩),
          ["mc.test"]⟩ := by
  have hwrites : Writes .plain "25566" ⟨"mc.test", 25566⟩ "mc.test:25566" :=
    { text := by decide +kernel
      host := by unfold AddressForm.Admits; decide +kernel
      port := ⟨by decide +kernel, by decide +kernel, List.all_eq_true.1 (by decide +kernel),
        by decide +kernel, by decide⟩ }
  have hsplit : split "mc.test:25566" = .ok ⟨"mc.test", 25566⟩ :=
    split_eq_ok_iff.2 ⟨.plain, "25566", hwrites⟩
  have hparse : parse "mc.test:25566" = .error ⟨"mc.test:25566", .notLiteral⟩ := by
    rw [parse, hsplit]
    rfl
  have hfound : Answered "mc.test:25566" ⟨"mc.test", 25566⟩
      (.addresses (["garbage"] ++ "2001:db8::1" :: ["192.0.2.1"]))
      (.ok ⟨"2001:db8::1", 25566, .v6⟩) := .first (by decide +kernel) (by decide +kernel)
  exact ⟨((resolve_exact _ _).1 _).2 (.lookedUp hsplit hparse hfound),
    ((resolve_exact _ _).1 _).2 (.lookedUp hsplit hparse (.wrapped "5"))⟩

/-- A refusal without a text leads to an error that is none of an address. -/
theorem resolve_exact_textless :
    (resolve (fun _ => .refused (.textless noText)) "h:1").outcome = .error (.foreign noText) ∧
      ∀ e : AddressError, (resolve (fun _ => .refused (.textless noText)) "h:1").outcome
        ≠ .error (.own e) := by
  have houtcome : (resolve (fun _ => .refused (.textless noText)) "h:1").outcome
      = .error (.foreign noText) := by rfl
  rw [houtcome]
  exact ⟨rfl, fun e h => nomatch h⟩

end WakeConfig.SocketAddress
