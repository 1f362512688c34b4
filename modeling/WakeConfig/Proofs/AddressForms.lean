import WakeConfig.Net.SocketAddress
import WakeConfig.Proofs.Literals

/-!
# The forms of an address text

An address text is a host without colons, a colon and a port, or a version 6 host in brackets, a
colon and a port. `split_exact` says that a text of one of these forms is split into its parts, that
any other text is refused, and that no text can be taken apart in two ways.
-/

namespace WakeConfig

/-- The form of an address text: its host stands in brackets or it does not. -/
inductive AddressForm where
  | plain
  | bracketed
  deriving DecidableEq

namespace AddressForm

/-- The text of a host and the digits of a port in a form. -/
def text : AddressForm → String → String → String
  | plain, host, digits => host ++ ":" ++ digits
  | bracketed, host, digits => "[" ++ host ++ "]:" ++ digits

/-- The hosts of a form: without brackets any text but the empty one that has no colon and does not
start with a bracket, in brackets a version 6 address. -/
def Admits : AddressForm → String → Prop
  | plain, host => host ≠ "" ∧ ':' ∉ host.toList ∧ host.toList.head? ≠ some '['
  | bracketed, host => IpAddress.family? host = some .v6

theorem toList_text_plain (host digits : String) :
    (plain.text host digits).toList = host.toList ++ ':' :: digits.toList := by
  rw [text, String.toList_append, String.toList_append, List.append_assoc]
  rfl

theorem toList_text_bracketed (host digits : String) :
    (bracketed.text host digits).toList
      = '[' :: (host.toList ++ ']' :: ':' :: digits.toList) := by
  rw [text, String.toList_append, String.toList_append, String.toList_append, List.append_assoc,
    List.append_assoc]
  rfl

theorem head?_text_plain {host : String} (hne : host ≠ "") (digits : String) :
    (plain.text host digits).toList.head? = host.toList.head? := by
  obtain ⟨c, s, hs⟩ := List.exists_cons_of_ne_nil fun h => hne (String.toList_eq_nil_iff.1 h)
  rw [toList_text_plain, hs]
  rfl

theorem text_right_inj {form : AddressForm} {host digits digits' : String} :
    form.text host digits = form.text host digits' ↔ digits = digits' := by
  cases form <;> exact String.append_right_inj _

end AddressForm

namespace SocketAddress

open Text (isDigit digitsValue)

variable {address : String} {host digits s : List Char} {parts : HostPort} {n : Nat}

/-! ## Ports -/

/-- One to five decimal digits, and the port that they spell. -/
structure SpellsPort (digits : List Char) (port : Nat) : Prop where
  ne_nil : digits ≠ []
  length : digits.length ≤ 5
  decimal : ∀ c ∈ digits, isDigit c = true
  value : digitsValue digits = port
  le : port ≤ maxPort

theorem port?_eq_ok_iff : port? digits = .ok n ↔ SpellsPort digits n := by
  have hform : (!digits.isEmpty && digits.length ≤ 5 && digits.all isDigit) = true ↔
      digits ≠ [] ∧ digits.length ≤ 5 ∧ ∀ c ∈ digits, isDigit c = true := by
    simp [and_assoc]
  unfold port?
  constructor
  · intro h
    split at h
    · rename_i hdigits
      obtain ⟨hne, hlength, hall⟩ := hform.1 hdigits
      split at h
      · rename_i hle
        cases h
        exact ⟨hne, hlength, hall, rfl, hle⟩
      · cases h
    · cases h
  · rintro ⟨hne, hlength, hall, rfl, hle⟩
    rw [if_pos (hform.2 ⟨hne, hlength, hall⟩), if_pos hle]

theorem SpellsPort.colon_not_mem (h : SpellsPort digits n) : ':' ∉ digits :=
  fun hc => absurd (h.decimal ':' hc) (by decide)

/-! ## Taking a text apart -/

theorem ne_of_not_mem {c d : Char} (h : d ∉ s) (hc : c ∈ s) : (c != d) = true := by
  rw [bne_iff_ne]
  rintro rfl
  exact h hc

/-- What is behind an opening bracket is taken apart at the first closing one. -/
theorem splitBracketed_append (hhost : ']' ∉ host) (digits : List Char) :
    splitBracketed (host ++ ']' :: ':' :: digits) =
      if IpAddress.family? (String.ofList host) = some .v6 then
        (port? digits).map fun n => ⟨String.ofList host, n⟩
      else .error .notV6 := by
  have hall : ∀ c ∈ host, (c != ']') = true := fun c hc => ne_of_not_mem hhost hc
  rw [splitBracketed, List.dropWhile_append_of_pos hall, List.takeWhile_append_of_pos hall]
  simp only [bne_self_eq_false, Bool.false_eq_true, not_false_eq_true,
    List.dropWhile_cons_of_neg, List.takeWhile_cons_of_neg, List.append_nil]

/-- A text without brackets is taken apart at the last colon. -/
theorem splitPlain_append (host : List Char) (hdigits : ':' ∉ digits) :
    splitPlain (host ++ ':' :: digits) =
      if host.isEmpty || host.contains ':' then .error .hostForm
      else (port? digits).map fun n => ⟨String.ofList host, n⟩ := by
  have hreverse : ∀ c ∈ digits.reverse, (c != ':') = true :=
    fun c hc => ne_of_not_mem hdigits (List.mem_reverse.1 hc)
  have hlast : ((host ++ ':' :: digits).reverse.takeWhile (· != ':')).reverse = digits := by
    rw [List.reverse_append, List.reverse_cons, List.append_assoc,
      List.takeWhile_append_of_pos hreverse]
    simp
  have hlength : (host ++ ':' :: digits).length - digits.length - 1 = host.length := by
    rw [List.length_append, List.length_cons]
    omega
  rw [splitPlain, if_neg (by simp)]
  dsimp only
  rw [hlast, hlength, List.take_left' rfl]

/-- A text with a colon has a last one. -/
theorem exists_last_colon (h : ':' ∈ s) :
    ∃ host digits, s = host ++ ':' :: digits ∧ ':' ∉ digits := by
  obtain ⟨digits, host, hs, hdigits⟩ := List.eq_append_cons_of_mem (List.mem_reverse.2 h)
  refine ⟨host.reverse, digits.reverse, ?_, by simpa using hdigits⟩
  rw [← List.reverse_reverse s, hs]
  simp

theorem map_port?_eq_ok_iff {name : String} :
    ((port? digits).map fun n => (⟨name, n⟩ : HostPort)) = .ok parts ↔
      name = parts.host ∧ SpellsPort digits parts.port := by
  rw [← port?_eq_ok_iff]
  obtain ⟨host, port⟩ := parts
  cases port? digits <;> simp [Except.map]

theorem splitBracketed_eq_ok_iff : splitBracketed s = .ok parts ↔
    IpAddress.family? parts.host = some .v6 ∧
      ∃ digits, s = parts.host.toList ++ ']' :: ':' :: digits ∧ SpellsPort digits parts.port := by
  constructor
  · intro h
    unfold splitBracketed at h
    split at h
    · rename_i digits hrest
      dsimp only at h
      split at h
      · rename_i hfamily
        obtain ⟨hname, hport⟩ := map_port?_eq_ok_iff.1 h
        refine ⟨hname ▸ hfamily, digits, ?_, hport⟩
        rw [← hname, String.toList_ofList, ← hrest, List.takeWhile_append_dropWhile]
      · cases h
    · cases h
  · rintro ⟨hfamily, digits, rfl, hport⟩
    have hhost := IpAddress.not_mem_of_isV6 (IpAddress.isV6_of_family? hfamily)
    rw [splitBracketed_append hhost, String.ofList_toList, if_pos hfamily]
    exact map_port?_eq_ok_iff.2 ⟨rfl, hport⟩

theorem splitPlain_eq_ok_iff : splitPlain s = .ok parts ↔
    parts.host ≠ "" ∧ ':' ∉ parts.host.toList ∧
      ∃ digits, s = parts.host.toList ++ ':' :: digits ∧ SpellsPort digits parts.port := by
  constructor
  · intro h
    by_cases hcolon : ':' ∈ s
    · obtain ⟨host, digits, rfl, hdigits⟩ := exists_last_colon hcolon
      rw [splitPlain_append host hdigits] at h
      split at h
      · cases h
      · rename_i hhost
        obtain ⟨hname, hport⟩ := map_port?_eq_ok_iff.1 h
        obtain rfl : host = parts.host.toList := by rw [← hname, String.toList_ofList]
        simp only [Bool.or_eq_true, List.isEmpty_iff, List.contains_iff_mem, not_or] at hhost
        exact ⟨fun he => hhost.1 (String.toList_eq_nil_iff.2 he), hhost.2, digits, rfl, hport⟩
    · rw [splitPlain, if_pos hcolon] at h
      cases h
  · rintro ⟨hne, hcolon, digits, rfl, hport⟩
    have hhost : ¬(parts.host.toList.isEmpty || parts.host.toList.contains ':') = true := by
      simpa using ⟨hne, hcolon⟩
    rw [splitPlain_append _ hport.colon_not_mem, if_neg hhost]
    exact map_port?_eq_ok_iff.2 ⟨String.ofList_toList, hport⟩

/-! ## Address texts -/

/-- An address text is written in a form, with the given digits for its port. -/
structure Writes (form : AddressForm) (digits : String) (parts : HostPort) (address : String) :
    Prop where
  text : address = form.text parts.host digits
  host : form.Admits parts.host
  port : SpellsPort digits.toList parts.port

variable {form form' : AddressForm} {number number' : String} {parts' : HostPort}

/-- The form of a text shows at its first character. -/
theorem Writes.head? (h : Writes form number parts address) :
    address.toList.head? = some '[' ↔ form = .bracketed := by
  obtain ⟨rfl, hhost, -⟩ := h
  cases form with
  | bracketed => simp [AddressForm.toList_text_bracketed]
  | plain =>
    rw [AddressForm.head?_text_plain hhost.1]
    simpa using hhost.2.2

theorem split_of_bracket (h : address.toList = '[' :: s) :
    split address = (splitBracketed s).mapError fun fault => ⟨address, fault⟩ := by
  simp only [split, h]

theorem split_of_head? (h : address.toList.head? ≠ some '[') :
    split address = (splitPlain address.toList).mapError fun fault => ⟨address, fault⟩ := by
  unfold split
  dsimp only
  split
  · rename_i heq
    rw [heq] at h
    exact absurd rfl h
  · rfl

theorem mapError_eq_ok_iff {x : Except AddressFault HostPort} :
    (x.mapError fun fault => (⟨address, fault⟩ : AddressError)) = .ok parts ↔ x = .ok parts := by
  cases x with
  | error fault =>
    constructor
    · intro h
      cases h
    · intro h
      cases h
  | ok result =>
    constructor
    · intro h
      cases h
      rfl
    · intro h
      cases h
      rfl

theorem split_eq_ok_iff :
    split address = .ok parts ↔ ∃ form digits, Writes form digits parts address := by
  by_cases hhead : address.toList.head? = some '['
  · obtain ⟨s, hs⟩ := List.head?_eq_some_iff.1 hhead
    rw [split_of_bracket hs, mapError_eq_ok_iff, splitBracketed_eq_ok_iff]
    constructor
    · rintro ⟨hfamily, digits, rfl, hport⟩
      refine ⟨.bracketed, String.ofList digits, ?_, hfamily, by rwa [String.toList_ofList]⟩
      rw [← String.toList_inj, hs, AddressForm.toList_text_bracketed, String.toList_ofList]
    · rintro ⟨form, digits, h⟩
      obtain rfl := h.head?.1 hhead
      refine ⟨h.host, digits.toList, ?_, h.port⟩
      rw [h.text, AddressForm.toList_text_bracketed] at hs
      exact (List.cons.inj hs).2.symm
  · rw [split_of_head? hhead, mapError_eq_ok_iff, splitPlain_eq_ok_iff]
    constructor
    · rintro ⟨hne, hcolon, digits, hs, hport⟩
      have htext : address = AddressForm.plain.text parts.host (String.ofList digits) := by
        rw [← String.toList_inj, hs, AddressForm.toList_text_plain, String.toList_ofList]
      have hhost : parts.host.toList.head? ≠ some '[' := by
        rwa [htext, AddressForm.head?_text_plain hne] at hhead
      exact ⟨.plain, String.ofList digits, htext, ⟨hne, hcolon, hhost⟩,
        by rwa [String.toList_ofList]⟩
    · rintro ⟨form, digits, h⟩
      cases form with
      | bracketed => exact absurd (h.head?.2 rfl) hhead
      | plain =>
        refine ⟨h.host.1, h.host.2.1, digits.toList, ?_, h.port⟩
        rw [h.text, AddressForm.toList_text_plain]

/-- A text that is not split is reported as it is. -/
theorem address_of_split {e : AddressError} (h : split address = .error e) :
    e.address = address := by
  obtain ⟨result, hresult⟩ : ∃ result : Except AddressFault HostPort,
      split address = result.mapError fun fault => ⟨address, fault⟩ := ⟨_, rfl⟩
  rw [hresult] at h
  cases result with
  | ok parts => cases h
  | error fault =>
    cases h
    rfl

theorem Writes.unique (h : Writes form number parts address)
    (h' : Writes form' number' parts' address) :
    form = form' ∧ number = number' ∧ parts = parts' := by
  have hform : form = form' := by
    have hbracket := h.head?.symm.trans h'.head?
    cases form <;> cases form' <;> simp_all
  subst hform
  have hparts : parts = parts' := by
    have hsplit := split_eq_ok_iff.2 ⟨form, number, h⟩
    rw [split_eq_ok_iff.2 ⟨form, number', h'⟩] at hsplit
    exact (Except.ok.inj hsplit).symm
  subst hparts
  exact ⟨rfl, AddressForm.text_right_inj.1 (h.text.symm.trans h'.text), rfl⟩

/-- A text is parsed as an address exactly if it is split into its host and its port, and the host
is a literal of its family. -/
theorem parse_eq_ok_iff {a : SocketAddress} : parse address = .ok a ↔
    split address = .ok ⟨a.host, a.port⟩ ∧ IpAddress.family? a.host = some a.family := by
  unfold parse
  cases split address with
  | error e => simp [bind, Except.bind]
  | ok parts =>
    obtain ⟨host, port⟩ := parts
    obtain ⟨aHost, aPort, aFamily⟩ := a
    simp only [bind, Except.bind, ofLiteral?, Except.ok.injEq, HostPort.mk.injEq]
    cases hfamily : IpAddress.family? host with
    | none =>
      simp only [Option.map_none, reduceCtorEq, false_iff, not_and]
      rintro ⟨rfl, rfl⟩
      simp [hfamily]
    | some family =>
      simp only [Option.map_some, Except.ok.injEq, SocketAddress.mk.injEq]
      constructor
      · rintro ⟨rfl, rfl, rfl⟩
        exact ⟨⟨rfl, rfl⟩, hfamily⟩
      · rintro ⟨⟨rfl, rfl⟩, h⟩
        exact ⟨rfl, rfl, Option.some.inj (hfamily.symm.trans h)⟩

/-- **Exactly the address texts are split.** A text is split into a host and a port exactly if it is
written from them, in one of the forms; any other text is refused with an error that holds it. And
no text is written in two ways. -/
theorem split_exact (address : String) :
    (∀ parts, split address = .ok parts ↔ ∃ form digits, Writes form digits parts address) ∧
    ((∀ form digits parts, ¬Writes form digits parts address) →
      ∃ fault, split address = .error ⟨address, fault⟩) ∧
    (∀ form digits parts form' digits' parts', Writes form digits parts address →
      Writes form' digits' parts' address → form = form' ∧ digits = digits' ∧ parts = parts') := by
  refine ⟨fun parts => split_eq_ok_iff, fun hnone => ?_, fun _ _ _ _ _ _ h h' => h.unique h'⟩
  cases hsplit : split address with
  | ok parts =>
    obtain ⟨form, digits, h⟩ := split_eq_ok_iff.1 hsplit
    exact absurd h (hnone form digits parts)
  | error e => exact ⟨e.fault, by rw [← address_of_split hsplit]⟩

/-- A host in brackets may have a zone with colons, points and hyphens, and a port may have zeros in
front. -/
theorem split_exact_zone :
    Writes .bracketed "00080" ⟨"fe80::1%eth-0.1:2", 80⟩ "[fe80::1%eth-0.1:2]:00080" ∧
      split "[fe80::1%eth-0.1:2]:00080" = .ok ⟨"fe80::1%eth-0.1:2", 80⟩ :=
  have hwrites : Writes .bracketed "00080" ⟨"fe80::1%eth-0.1:2", 80⟩ "[fe80::1%eth-0.1:2]:00080" :=
    { text := by decide +kernel
      host := by unfold AddressForm.Admits; decide +kernel
      port := ⟨by decide +kernel, by decide +kernel, List.all_eq_true.1 (by decide +kernel),
        by decide +kernel, by decide⟩ }
  ⟨hwrites, ((split_exact _).1 _).2 ⟨_, _, hwrites⟩⟩

end SocketAddress

end WakeConfig
