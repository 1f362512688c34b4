import WakeConfig.Proofs.Escapes
import WakeConfig.Proofs.Variables

/-!
# The start command of an environment

The text of the start command is looked at before its escapes are decoded, and a text that is not
blank may decode to one that is. `WritesBlank` says which texts do: those that are made of blanks
and of escapes of control characters alone.
-/

namespace WakeConfig

namespace Text

/-- Nothing but blanks and escapes of control characters. -/
inductive WritesBlank : List Char → Prop where
  | nil : WritesBlank []
  | blank {c s} : isBlank c = true → WritesBlank s → WritesBlank (c :: s)
  | escape {p s} : p ∈ escapeLetters → WritesBlank s → WritesBlank ('\\' :: p.1 :: s)

variable {c : Char} {s : List Char}

theorem isBlank_escapeLetters : ∀ p ∈ escapeLetters, isBlank p.1 = false ∧ isBlank p.2 = true := by
  decide

theorem writesBlank_cons_of_ne (hc : c ≠ '\\') :
    WritesBlank (c :: s) ↔ isBlank c = true ∧ WritesBlank s := by
  constructor
  · intro h
    cases h with
    | blank hblank hs => exact ⟨hblank, hs⟩
    | escape hp hs => exact absurd rfl hc
  · rintro ⟨hblank, hs⟩
    exact .blank hblank hs

/-- A backslash has to be that of an escape. -/
theorem writesBlank_backslash :
    WritesBlank ('\\' :: s) ↔ ∃ p ∈ escapeLetters, ∃ rest, s = p.1 :: rest ∧ WritesBlank rest := by
  constructor
  · intro h
    cases h with
    | blank hblank hs => exact absurd hblank (by decide)
    | escape hp hs => exact ⟨_, hp, _, rfl, hs⟩
  · rintro ⟨p, hp, rest, rfl, hs⟩
    exact .escape hp hs

theorem not_writesBlank_backslashes (k : Nat) :
    ¬ WritesBlank ('\\' :: '\\' :: (.replicate k '\\' ++ s)) := by
  rw [writesBlank_backslash]
  rintro ⟨p, hp, rest, heq, -⟩
  exact apart_escapeLetters.letter p hp (List.cons.inj heq).1.symm

theorem writesBlank_replicate (k : Nat) : WritesBlank (.replicate k '\\') ↔ k = 0 := by
  match k with
  | 0 => simp [WritesBlank.nil]
  | 1 => simp [writesBlank_backslash]
  | k + 2 => simpa [List.replicate_succ] using not_writesBlank_backslashes (s := []) k

/-- A run without an escape has to be no run of backslashes at all. -/
theorem writesBlank_run_of_ne (hc : c ≠ '\\') {k : Nat}
    (hk : k = 0 ∨ ∀ p ∈ escapeLetters, c ≠ p.1) :
    WritesBlank (.replicate k '\\' ++ c :: s) ↔ k = 0 ∧ isBlank c = true ∧ WritesBlank s := by
  match k with
  | 0 => simpa using writesBlank_cons_of_ne hc
  | 1 =>
    have hletter := hk.resolve_left (by simp)
    simp only [List.replicate_one, List.singleton_append, writesBlank_backslash, Nat.one_ne_zero,
      false_and, iff_false]
    rintro ⟨p, hp, rest, heq, -⟩
    exact hletter p hp (List.cons.inj heq).1
  | k + 2 => simpa [List.replicate_succ] using not_writesBlank_backslashes k

/-- A run with an escape has to have the backslash of the escape and no other. -/
theorem writesBlank_run {p : Char × Char} (hp : p ∈ escapeLetters) (k : Nat) :
    WritesBlank (.replicate (k + 1) '\\' ++ p.1 :: s) ↔ k = 0 ∧ WritesBlank s := by
  cases k with
  | zero =>
    simp only [Nat.zero_add, List.replicate_one, List.singleton_append, writesBlank_backslash,
      true_and]
    constructor
    · rintro ⟨q, hq, rest, heq, hs⟩
      exact (List.cons.inj heq).2 ▸ hs
    · intro hs
      exact ⟨p, hp, s, rfl, hs⟩
  | succ k => simpa [List.replicate_succ] using not_writesBlank_backslashes k

theorem forall_isBlank_halfUp (k : Nat) (s : List Char) :
    (∀ c ∈ List.replicate (halfUp k) '\\' ++ s, isBlank c = true) ↔
      k = 0 ∧ ∀ c ∈ s, isBlank c = true := by
  have hbackslash : isBlank '\\' = false := by decide
  have hhalf : halfUp k = 0 ↔ k = 0 := by
    unfold halfUp
    omega
  rw [List.forall_mem_append]
  refine and_congr_left fun _ => ?_
  simp only [List.mem_replicate, ne_eq, hhalf]
  constructor
  · intro h
    refine by_contra fun hk => ?_
    rw [h '\\' ⟨hk, rfl⟩] at hbackslash
    cases hbackslash
  · rintro hk c ⟨hne, -⟩
    exact absurd hk hne

/-- A text decodes to blanks alone exactly if it is written as such. -/
theorem forall_isBlank_decodeEscapes (s : List Char) :
    (∀ c ∈ decodeEscapes s, isBlank c = true) ↔ WritesBlank s := by
  induction s using run_induction with
  | ends k =>
    rw [decodeEscapes_replicate, writesBlank_replicate]
    simpa using forall_isBlank_halfUp k []
  | goesOn k c s hc ih =>
    rw [decodeEscapes_run hc]
    obtain hk | ⟨k, p, hp, rfl, rfl⟩ := run_cases escapeLetters k c
    · rw [decodeRun_of_ne hk, forall_isBlank_halfUp, List.forall_mem_cons, ih,
        writesBlank_run_of_ne hc hk]
    · rw [decodeRun_letter hp, forall_isBlank_halfUp, List.forall_mem_cons, ih,
        writesBlank_run hp]
      simp [(isBlank_escapeLetters p hp).2]

end Text

namespace FromEnvironment

open Text (WritesBlank isBlank)

theorem described_command {src : Reader.Source} {text : String}
    (htext : src.text? .serverCommand = some text) :
    (described src).server.command = Text.unescape text := by
  show src.value _ .serverCommand = Text.unescape text
  rw [Reader.Source.value, htext]
  rfl

/-- **The start command is not blank before it is decoded.** Where the variable of the start command
is not set to a text with a character that is not blank, this is reported as an error, and nowhere
else. A tree is read exactly if there is such a text and no address raises an error. The command of
the tree is the text with its escapes decoded, and it has such a character as well unless the text
is blanks and escapes of control characters alone. -/
theorem read_command (platform : Platform) (resolver : HostResolver) (e : Environment) :
    ((read platform resolver e).result = .error (.own .missingCommand) ↔
      ¬ ∃ text, e.get? Default.commandVariable = some text ∧
        ∃ ch ∈ text.toList, isBlank ch = false) ∧
    ((∃ c, (read platform resolver e).result = .ok c) ↔
      (∃ text, e.get? Default.commandVariable = some text ∧
        ∃ ch ∈ text.toList, isBlank ch = false) ∧
      ∀ s raised, ¬ Reader.Source.Raises ⟨e, resolver, platform⟩ s raised) ∧
    ∀ c, (read platform resolver e).result = .ok c →
      ∃ text, e.get? Default.commandVariable = some text ∧
        c.server.command = Text.unescape text ∧
        ((∃ ch ∈ c.server.command.toList, isBlank ch = false) ↔ ¬ WritesBlank text.toList) := by
  have hcommand : e.HasCommand ↔ ∃ text, e.get? Default.commandVariable = some text ∧
      ∃ ch ∈ text.toList, isBlank ch = false := Iff.rfl
  rw [← hcommand]
  by_cases h : e.HasCommand
  · have hiff := @exists_result_iff platform resolver e h
    refine ⟨by simp [result_eq_own_iff], by rw [hiff]; simp [h], fun c hc => ?_⟩
    rw [read_of_quiet h (hiff.1 ⟨c, hc⟩)] at hc
    obtain rfl := Except.ok.inj hc
    obtain ⟨text, htext, -⟩ := h
    have hdescribed : (described ⟨e, resolver, platform⟩).server.command = Text.unescape text := by
      refine described_command ?_
      rw [Reader.Source.text?, Setting.variableName_serverCommand]
      exact htext
    refine ⟨text, htext, hdescribed, ?_⟩
    rw [hdescribed, Text.unescape, String.toList_ofList, ← Text.forall_isBlank_decodeEscapes]
    simp
  · rw [read_of_not_hasCommand platform resolver h]
    simp [h]

/-- A start command that is an escaped line break. -/
def lineBreakCommand : Environment := ⟨[("LAZYMC_SERVER_COMMAND", "\\n")]⟩

/-- An escaped line break is taken as a start command, and the tree has a command of one blank. -/
theorem read_command_lineBreak :
    ¬ ∀ (platform : Platform) (resolver : HostResolver) (e : Environment) (c : Config),
      (read platform resolver e).result = .ok c →
        ∃ ch ∈ c.server.command.toList, isBlank ch = false := by
  intro h
  have hcommand : lineBreakCommand.HasCommand :=
    ⟨"\\n", by decide, '\\', by decide, by decide⟩
  have htext : Reader.Source.text? ⟨lineBreakCommand, fun _ _ => .addresses [], .other⟩
      .serverCommand = some "\\n" := by
    decide
  have hdecoded : (described ⟨lineBreakCommand, fun _ _ => .addresses [], .other⟩).server.command
      = "\n" := by
    rw [described_command htext]
    decide
  have hquiet : ∀ s raised, ¬ Reader.Source.Raises
      ⟨lineBreakCommand, fun _ _ => .addresses [], .other⟩ s raised := by
    rintro s raised ⟨-, text, -, host, -, hrefused⟩
    cases hrefused
  obtain ⟨ch, hmem, hblank⟩ := h _ _ _ _ (congrArg Outcome.result (read_of_quiet hcommand hquiet))
  have hlist : "\n".toList = ['\n'] := by decide
  rw [hdecoded, hlist, List.mem_singleton] at hmem
  subst hmem
  exact absurd hblank (by decide)

end FromEnvironment

end WakeConfig
