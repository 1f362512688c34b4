import WakeConfig.Proofs.Failures

/-!
# What a loaded tree is

A tree that is loaded comes from the configuration that its source gives, in which finishing sets
the path and takes the server directory from where the file is. `result_fromFile_iff` and
`result_fromEnvironment_iff` say so of the two sources, and `at?_located` that finishing leaves
every other value as it was.
-/

namespace WakeConfig.Load

/-! ## Sources -/

/-- What a source gives: the file at a path, or the environment, which has no path. With the
configuration come the default parts that are in its tree. -/
inductive Gives (s : Surroundings) : Option String → CommonParts → Config → Prop
  | file {path text : String} {t : Toml.Table} {c : Config} :
      s.files.readText s.directory path = .ok text → FromToml.table? text = some t →
      (FromToml.build s.platform s.resolver t).result = .ok c →
      Gives s (some path) (FromToml.common t) c
  | environment {c : Config} :
      (FromEnvironment.read s.platform s.resolver s.environment).result = .ok c →
      Gives s none .none c

variable {s : Surroundings} {path : String} {path? : Option String} {common : CommonParts}
  {c : Config} {l : LoadedConfig}

theorem result_fromFile_iff : (fromFile s path).result = .ok l ↔
    ∃ common c, Gives s (some path) common c ∧ l = finish s.directory (some path) common c := by
  constructor
  · intro h
    unfold fromFile at h
    split at h
    · cases h
    · rename_i text hread
      dsimp only at h
      split at h
      · cases h
      · rename_i c hparse
        cases ht : FromToml.table? text with
        | none =>
          rw [FromToml.parse, ht] at hparse
          cases hparse
        | some t =>
          simp only [FromToml.parse, ht] at h hparse
          exact ⟨FromToml.common t, c, .file hread ht hparse, (Except.ok.inj h).symm⟩
  · rintro ⟨common, c, ⟨hread, ht, hbuild⟩, rfl⟩
    simp only [fromFile, hread, FromToml.parse, ht, hbuild]
    rfl

theorem result_fromEnvironment_iff : (fromEnvironment s).result = .ok l ↔
    ∃ c, Gives s none .none c ∧ l = finish s.directory none .none c := by
  constructor
  · intro h
    unfold fromEnvironment at h
    dsimp only at h
    split at h
    · cases h
    · rename_i c hread
      exact ⟨c, .environment hread, (Except.ok.inj h).symm⟩
  · rintro ⟨c, hgives, rfl⟩
    cases hgives with
    | environment hread => simp only [fromEnvironment, hread]

theorem Gives.describes (h : Gives s path? common c) : c.IsWellFormed ∧ c.path = none := by
  cases h with
  | @file _ _ t _ _ _ hbuild =>
    have hdescribes := (FromToml.ends_tree s.platform s.resolver t []).value hbuild
    exact ⟨hdescribes.wellFormed, hdescribes.path⟩
  | environment hread => exact (FromEnvironment.ends_tree _ _).value hread

/-- A configuration from a file is what its text is read as. -/
theorem Gives.parse (h : Gives s (some path) common c) :
    ∃ text, s.files.readText s.directory path = .ok text ∧
      (FromToml.parse s.platform s.resolver text).result = .ok c ∧
      (FromToml.parse s.platform s.resolver text).common = common := by
  cases h with
  | @file _ text t _ hread ht hbuild =>
    have hparse : FromToml.parse s.platform s.resolver text
        = FromToml.build s.platform s.resolver t := by
      rw [FromToml.parse, ht]
    exact ⟨text, hread, by rw [hparse, hbuild], by rw [hparse]; rfl⟩

/-! ## Finishing -/

theorem toJson_finish (directory : String) (path? : Option String) (common : CommonParts)
    (c : Config) :
    (finish directory path? common c).tree.toJson = (located directory path? c).toJson :=
  Part.toJson_close _

/-- Without a path there is nothing to finish. -/
theorem located_none (directory : String) {c : Config} (hc : c.path = none) :
    located directory none c = c := by
  obtain ⟨path, front, server, time, motd, join, lockout, rcon, advanced, format⟩ := c
  obtain rfl : path = none := hc
  rfl

/-- The places of what finishing may change: the server directory, the path, and what they stand
in. -/
def finishedKeys : List (List String) := [[], ["server"], ["server", "directory"], ["path"]]

theorem at?_cons (v : Json) (name : String) (rest : List String) :
    v.at? (name :: rest) = (v.at? [name]).bind (Json.at? rest) := by
  rw [Json.at?, Json.at?]
  cases v.member? name <;> rfl

theorem at?_string (text : String) {keys : List String} (h : keys ≠ []) :
    (Json.string text).at? keys = none := by
  cases keys with
  | nil => exact absurd rfl h
  | cons name rest => rfl

/-- The sections but `server` stay as they are. -/
theorem member?_located (directory : String) (path? : Option String) (c : Config) {name : String}
    (hserver : name ≠ "server") (hpath : name ≠ "path") :
    (located directory path? c).toJson.member? name = c.toJson.member? name := by
  have hs : (name == "server") = false := beq_eq_false_iff_ne.2 hserver
  have hp : (name == "path") = false := beq_eq_false_iff_ne.2 hpath
  obtain ⟨path, front, server, time, motd, join, lockout, rcon, advanced, format⟩ := c
  cases path <;> cases path? <;>
    simp [located, Config.toJson, Config.part, Part.toJson, Part.fieldsToJson, Json.member?,
      Part.optionalText, List.lookup_cons, hs, hp]

/-- The fields of the section `server` but its directory stay as they are. -/
theorem member?_server_located (directory : String) (path? : Option String) (c : Config)
    {name : String} (hname : name ≠ "directory") :
    ((located directory path? c).server.part .none).toJson.member? name
      = (c.server.part .none).toJson.member? name := by
  have hn : (name == "directory") = false := beq_eq_false_iff_ne.2 hname
  simp [located, ServerConfig.part, Part.toJson, Part.fieldsToJson, Json.member?, List.lookup_cons,
    hn]

/-- Finishing changes no value but the server directory and the path. -/
theorem at?_located (directory : String) (path? : Option String) (c : Config)
    {keys : List String} (hkeys : keys ∉ finishedKeys) :
    (located directory path? c).toJson.at? keys = c.toJson.at? keys := by
  simp only [finishedKeys, List.mem_cons, List.not_mem_nil, or_false, not_or] at hkeys
  obtain ⟨hroot, hserver, hdirectory, hpath⟩ := hkeys
  obtain ⟨name, rest, rfl⟩ := List.exists_cons_of_ne_nil hroot
  by_cases hp : name = "path"
  · subst hp
    have hrest : rest ≠ [] := fun h => hpath (by rw [h])
    have hnone : ∀ p? : Option String, (p?.map Json.string).bind (Json.at? rest) = none := by
      rintro (_ | p)
      · rfl
      · exact at?_string p hrest
    rw [at?_cons, Config.at?_path, hnone, at?_cons, Config.at?_path, hnone]
  · by_cases hs : name = "server"
    · subst hs
      have hrest : rest ≠ [] := fun h => hserver (by rw [h])
      obtain ⟨key, rest, rfl⟩ := List.exists_cons_of_ne_nil hrest
      by_cases hkey : key = "directory"
      · subst hkey
        have hrest : rest ≠ [] := fun h => hdirectory (by rw [h])
        exact (at?_string _ hrest).trans (at?_string _ hrest).symm
      · show ((located directory path? c).server.part .none).toJson.at? (key :: rest)
          = (c.server.part .none).toJson.at? (key :: rest)
        rw [Json.at?, Json.at?, member?_server_located directory path? c hkey]
    · rw [Json.at?, Json.at?, member?_located directory path? c hs hp]

end WakeConfig.Load

namespace WakeConfig.LoadedConfig

/-! ## What is loaded -/

/-- A configuration is loaded from a candidate path, from a file or from the environment. -/
inductive IsLoaded (s : Surroundings) (l : LoadedConfig) : Prop
  | candidate {candidate : String} : (load s candidate).result = .ok l → IsLoaded s l
  | file {path : String} : (Load.fromFile s path).result = .ok l → IsLoaded s l
  | environment : (Load.fromEnvironment s).result = .ok l → IsLoaded s l

variable {s : Surroundings} {l : LoadedConfig}

/-- A configuration that is loaded is what its source gives, finished. -/
theorem IsLoaded.gives (h : IsLoaded s l) : ∃ path? common c, Load.Gives s path? common c ∧
    l = Load.finish s.directory path? common c := by
  have hfile : ∀ {path}, (Load.fromFile s path).result = .ok l → ∃ path? common c,
      Load.Gives s path? common c ∧ l = Load.finish s.directory path? common c := fun h => by
    obtain ⟨common, c, hgives, hl⟩ := Load.result_fromFile_iff.1 h
    exact ⟨_, common, c, hgives, hl⟩
  have henvironment : (Load.fromEnvironment s).result = .ok l → ∃ path? common c,
      Load.Gives s path? common c ∧ l = Load.finish s.directory path? common c := fun h => by
    obtain ⟨c, hgives, hl⟩ := Load.result_fromEnvironment_iff.1 h
    exact ⟨none, .none, c, hgives, hl⟩
  cases h with
  | candidate h =>
    unfold load at h
    split at h
    · exact hfile h
    · exact henvironment h
  | file h => exact hfile h
  | environment h => exact henvironment h

/-- The tree of a configuration that is loaded has its values. -/
theorem IsLoaded.toJson_tree (h : IsLoaded s l) : l.tree.toJson = l.config.toJson := by
  obtain ⟨path?, common, c, -, rfl⟩ := h.gives
  exact Load.toJson_finish s.directory path? common c

theorem IsLoaded.wellFormed (h : IsLoaded s l) : l.config.IsWellFormed := by
  obtain ⟨path?, common, c, hgives, rfl⟩ := h.gives
  exact { hgives.describes.1 with }

end WakeConfig.LoadedConfig
