import WakeConfig.Proofs.FirstError
import WakeConfig.Proofs.Source
import WakeConfig.Proofs.Variables

/-!
# Failures to load

A configuration is loaded completely or not at all, and then the error is of one of three kinds, or
it is a foreign one. `settles_fromFile` says it of files and `settles_fromEnvironment` of
environments, which have one error of their own only; `load_settles` puts the two together by what a
candidate names, and says that there is a foreign error exactly if a name was refused with something
that has no text.
-/

namespace WakeConfig

/-! ## Errors -/

/-- An error is about a file: it could not be read, or its text is no configuration. The cause is
the error of the file system or of the text. -/
structure LoadError.OfFile (s : Surroundings) (path : String) (e : LoadError) : Prop where
  file : e.path? = some path
  variableName : e.variableName? = none
  cause :
    (e.kind? = some .read ∧ ∃ cause, e = .unreadable path cause ∧
      s.files.readText s.directory path = .error cause) ∨
    (e.kind? = some .parse ∧ ∃ text cause, e = .malformed path cause ∧
      s.files.readText s.directory path = .ok text ∧
      (FromToml.parse s.platform s.resolver text).result = .error (.own cause))

/-- An error says that the variable of the start command is missing. -/
structure LoadError.OfCommand (e : LoadError) : Prop where
  file : e.path? = none
  variableName : e.variableName? = some "LAZYMC_SERVER_COMMAND"
  kind : e.kind? = some .missingVariable

theorem LoadError.OfFile.kind {s : Surroundings} {path : String} {e : LoadError}
    (h : e.OfFile s path) : e.kind? = some .read ∨ e.kind? = some .parse :=
  h.cause.imp And.left And.left

/-- An environment gives no start command if its variable is unset or blank. -/
theorem Environment.not_hasCommand_iff {e : Environment} :
    ¬ e.HasCommand ↔
      ∀ text ∈ e.get? "LAZYMC_SERVER_COMMAND", ∀ c ∈ text.toList, Text.isBlank c = true := by
  have hvariable : Default.commandVariable = "LAZYMC_SERVER_COMMAND" := rfl
  simp [HasCommand, IsCommand, hvariable]

/-! ## The two sources -/

namespace Load

variable {s : Surroundings} {path : String}

/-- A tree with its path, as a value. -/
def IsTreeAt (path? : Option String) (l : LoadedConfig) : Prop :=
  l.tree.toJson.IsTree ∧ l.tree.toJson.at? ["path"] = path?.map Json.string

theorem settles_fromFile (s : Surroundings) (path : String) :
    Settles (IsTreeAt (some path)) (Raised.IfOwn (LoadError.OfFile s path))
      (fromFile s path).result := by
  cases hresult : (fromFile s path).result with
  | ok l => exact isTree_fromFile hresult
  | error e =>
    unfold fromFile at hresult
    split at hresult
    · rename_i cause hread
      obtain rfl := Except.error.inj hresult
      exact ⟨rfl, rfl, .inl ⟨rfl, cause, rfl, hread⟩⟩
    · rename_i text hread
      dsimp only at hresult
      split at hresult
      · rename_i cause hparse
        obtain rfl := Except.error.inj hresult
        cases cause with
        | own cause => exact ⟨rfl, rfl, .inr ⟨rfl, text, cause, rfl, hread, hparse⟩⟩
        | foreign raised => trivial
      · cases hresult

theorem result_fromEnvironment_eq_own_iff {e : LoadError} :
    (fromEnvironment s).result = .error (.own e) ↔
      e = .environment .missingCommand ∧ ¬ s.environment.HasCommand := by
  have hread := @FromEnvironment.result_eq_own_iff s.platform s.resolver s.environment
  unfold fromEnvironment
  dsimp only
  cases hresult : (FromEnvironment.read s.platform s.resolver s.environment).result with
  | ok config =>
    have hcommand : s.environment.HasCommand := by simpa [hresult] using @hread .missingCommand
    simp [hcommand]
  | error cause =>
    cases cause with
    | own cause =>
      obtain ⟨rfl, h⟩ := hread.1 hresult
      simp [Raised.map, h, eq_comm]
    | foreign raised =>
      have hcommand : s.environment.HasCommand := by simpa [hresult] using @hread .missingCommand
      simp [Raised.map, hcommand]

theorem settles_fromEnvironment (s : Surroundings) :
    Settles (IsTreeAt none) (Raised.IfOwn LoadError.OfCommand) (fromEnvironment s).result := by
  cases hresult : (fromEnvironment s).result with
  | ok l => exact isTree_fromEnvironment hresult
  | error e =>
    cases e with
    | own e =>
      obtain ⟨rfl, -⟩ := result_fromEnvironment_eq_own_iff.1 hresult
      exact ⟨rfl, rfl, rfl⟩
    | foreign raised => trivial

/-! ## Foreign errors -/

theorem parse_eq_foreign_iff {platform : Platform} {resolver : HostResolver} {text : String}
    {raised : LookupError} :
    (FromToml.parse platform resolver text).result = .error (.foreign raised) ↔
      SocketAddress.RefusedLast resolver (FromToml.parse platform resolver text).lookups
        raised := by
  unfold FromToml.parse
  split
  · exact iff_of_false (by rintro ⟨⟩) (SocketAddress.not_refusedLast_nil resolver raised)
  · exact FromToml.result_build_eq_foreign_iff

/-- An error that is wrapped stays the same foreign error, if it is one. -/
theorem map_eq_foreign_iff {ε δ : Type} {wrap : ε → δ} {e : Raised ε} {raised : LookupError} :
    e.map wrap = .foreign raised ↔ e = .foreign raised := by
  cases e <;> simp [Raised.map]

theorem fromFile_eq_foreign_iff {raised : LookupError} :
    (fromFile s path).result = .error (.foreign raised) ↔
      SocketAddress.RefusedLast s.resolver (fromFile s path).lookups raised := by
  unfold fromFile
  split
  · exact iff_of_false (by rintro ⟨⟩) (SocketAddress.not_refusedLast_nil s.resolver raised)
  · rename_i text hread
    have hparse := @parse_eq_foreign_iff s.platform s.resolver text raised
    dsimp only
    cases hresult : (FromToml.parse s.platform s.resolver text).result with
    | ok config => simpa [hresult] using hparse
    | error cause => simpa [hresult, map_eq_foreign_iff] using hparse

theorem fromEnvironment_eq_foreign_iff {raised : LookupError} :
    (fromEnvironment s).result = .error (.foreign raised) ↔
      SocketAddress.RefusedLast s.resolver (fromEnvironment s).lookups raised := by
  have hread := @FromEnvironment.result_eq_foreign_iff s.platform s.resolver s.environment raised
  unfold fromEnvironment
  dsimp only
  cases hresult : (FromEnvironment.read s.platform s.resolver s.environment).result with
  | ok config => simpa [hresult] using hread
  | error cause => simpa [hresult, map_eq_foreign_iff] using hread

end Load

/-! ## Loading -/

/-- **Loading ends with a complete tree or with one of three errors.** Where a candidate names a
regular file, an error of the loading is that the file cannot be read or is no configuration; it has
the canonical path of the file and the underlying error as its cause. Where it names none, the only
error of the loading is that the variable of the start command is missing, and it is the outcome
exactly if that variable is unset or blank, whatever all other variables are and whatever the
resolver answers. There is one way to end with another error: it is passed on exactly if the last
name that was looked up is refused with something that has no text. -/
theorem load_settles (s : Surroundings) (candidate : String) :
    ((∃ path, NamesFile s.files s.directory candidate path) ∨
      NamesNoFile s.files s.directory candidate) ∧
    (∀ path, NamesFile s.files s.directory candidate path →
      Settles (Load.IsTreeAt (some path))
        (Raised.IfOwn fun e => e.OfFile s path ∧ (e.kind? = some .read ∨ e.kind? = some .parse))
        (load s candidate).result) ∧
    (NamesNoFile s.files s.directory candidate →
      Settles (Load.IsTreeAt none) (Raised.IfOwn LoadError.OfCommand) (load s candidate).result ∧
      ((∃ e, (load s candidate).result = .error (.own e)) ↔
        ∀ text ∈ s.environment.get? "LAZYMC_SERVER_COMMAND",
          ∀ c ∈ text.toList, Text.isBlank c = true)) ∧
    ∀ raised, (load s candidate).result = .error (.foreign raised) ↔
      ∃ heard host, (load s candidate).lookups = heard ++ [host] ∧
        s.resolver heard host = .refused (.textless raised) := by
  refine ⟨Load.namesFile_or_namesNoFile _ _ _, fun path h => ?_, fun h => ?_, fun raised => ?_⟩
  · have hload : (load s candidate).result = (Load.fromFile s path).result := by
      rw [load_of_namesFile h]
      rfl
    have hfile := Load.settles_fromFile s path
    rw [hload]
    cases hresult : (Load.fromFile s path).result with
    | ok l => exact hfile.value hresult
    | error e =>
      cases e with
      | own e => exact ⟨hfile.reason hresult, LoadError.OfFile.kind (hfile.reason hresult)⟩
      | foreign raised => trivial
  · have hload : (load s candidate).result = (Load.fromEnvironment s).result := by
      rw [load_of_namesNoFile h]
      rfl
    rw [hload, ← Environment.not_hasCommand_iff]
    refine ⟨Load.settles_fromEnvironment s, ?_⟩
    simp [Load.result_fromEnvironment_eq_own_iff]
  · rcases Load.namesFile_or_namesNoFile s.files s.directory candidate with ⟨path, h⟩ | h
    · rw [load_of_namesFile h]
      exact Load.fromFile_eq_foreign_iff
    · rw [load_of_namesNoFile h]
      exact Load.fromEnvironment_eq_foreign_iff

theorem load_settles_oneFile :
    (NamesFile oneFile.files "/" "a" "/a" ∧
      ∃ l, (load oneFile "a").result = .ok l ∧ l.tree.toJson.IsTree) ∧
    (NamesNoFile oneFile.files "/" "b" ∧
      ∃ e, (load { oneFile with environment := .empty } "b").result = .error (.own e) ∧
        e.kind? = some .missingVariable) := by
  have ha : NamesFile oneFile.files "/" "a" "/a" :=
    ⟨⟨"/a", eq_ok_of_toOption (by decide +kernel), .inl (eq_ok_of_toOption (by decide +kernel))⟩,
      eq_ok_of_toOption (by decide +kernel)⟩
  have hb : NamesNoFile oneFile.files "/" "b" :=
    have hpath : CanonicalPath oneFile.files "/" "b" "/b" :=
      ⟨"/b", eq_ok_of_toOption (by decide +kernel), .inl (eq_ok_of_toOption (by decide +kernel))⟩
    have hnone : oneFile.files.status "/" "/b" = .ok none := eq_ok_of_toOption (by decide +kernel)
    .irregular hpath hnone (by decide)
  refine ⟨⟨ha, ?_⟩, hb, ?_⟩
  · obtain ⟨l, hl⟩ := exists_ok (x := (load oneFile "a").result) (by decide +kernel)
    exact ⟨l, hl, (((load_settles oneFile "a").2.1 "/a" ha).value hl).1⟩
  · obtain ⟨hsettles, herror⟩ :=
      (load_settles { oneFile with environment := .empty } "b").2.2.1 hb
    obtain ⟨e, he⟩ := herror.2 fun text htext => nomatch htext
    exact ⟨e, he, LoadError.OfCommand.kind (hsettles.reason he)⟩

/-- An environment with an address whose name is refused with something that has no text: loading
ends with an error that is none of its own. -/
theorem load_settles_textless :
    let s : Surroundings :=
      { oneFile with
        environment := oneVariable.set "LAZYMC_PUBLIC_ADDRESS" (some "h:1")
        resolver := fun _ => allTextless }
    (load s "b").result = .error (.foreign SocketAddress.noText) ∧
      (load s "b").lookups = ["h"] :=
  ⟨rfl, rfl⟩

end WakeConfig
