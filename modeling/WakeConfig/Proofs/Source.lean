import WakeConfig.Proofs.WellFormed

/-!
# Exactly one source

A candidate path either names a regular file by its canonical path, or it does not: then it is
invalid, what it leads to cannot be told, or that is no regular file. In the first case the file
is the only source and the variables have no influence whatever; in the second the environment is
the only source and the files have none. `load_source` states both.
-/

namespace WakeConfig

/-! ## What a candidate names -/

/-- The canonical path of a valid candidate: without symbolic links where these can be followed,
and otherwise its absolute form. -/
def CanonicalPath (files : FileAccess) (directory candidate path : String) : Prop :=
  ∃ full, FileAccess.validPath directory candidate = .ok full ∧
    (files.canonical directory full = .ok path ∨
      path = full ∧ ∃ e, files.canonical directory full = .error e)

/-- A candidate names a regular file by a canonical path. -/
def NamesFile (files : FileAccess) (directory candidate path : String) : Prop :=
  CanonicalPath files directory candidate path ∧
    files.status directory path = .ok (some .file)

/-- A candidate names no regular file: it is invalid, it cannot be checked, or something else or
nothing is there. -/
inductive NamesNoFile (files : FileAccess) (directory candidate : String) : Prop
  | invalid {e : PathError} : FileAccess.validPath directory candidate = .error e →
      NamesNoFile files directory candidate
  | unchecked {path : String} {e : AccessError} : CanonicalPath files directory candidate path →
      files.status directory path = .error e → NamesNoFile files directory candidate
  | irregular {path : String} {kind? : Option FileKind} :
      CanonicalPath files directory candidate path →
      files.status directory path = .ok kind? → kind? ≠ some .file →
      NamesNoFile files directory candidate

namespace Load

variable {s : Surroundings} {candidate path : String}

theorem canonical?_of_invalid {e : PathError}
    (h : FileAccess.validPath s.directory candidate = .error e) :
    (canonical? s candidate).1 = none := by
  rw [canonical?, h]

theorem canonical?_of_canonicalPath (h : CanonicalPath s.files s.directory candidate path) :
    (canonical? s candidate).1 = some path := by
  obtain ⟨full, hv, hc | ⟨rfl, e, hc⟩⟩ := h
  · simp only [canonical?, hv, hc]
  · simp only [canonical?, hv, hc]

/-- The source of a candidate is its canonical path, if a regular file is there. -/
theorem fst_source? (s : Surroundings) (candidate : String) :
    (source? s candidate).1 =
      (canonical? s candidate).1.filter fun path => (isRegular s path).1 := by
  unfold source?
  rcases canonical? s candidate with ⟨path?, entries⟩
  cases path? with
  | none => rfl
  | some path =>
    rcases hr : isRegular s path with ⟨regular, more⟩
    cases regular <;> simp [Option.filter, hr]

theorem fst_isRegular (s : Surroundings) (path : String) :
    (isRegular s path).1 = true ↔ s.files.status s.directory path = .ok (some .file) := by
  unfold isRegular
  cases s.files.status s.directory path with
  | ok kind? => simp
  | error e => simp

theorem source?_of_namesFile (h : NamesFile s.files s.directory candidate path) :
    (source? s candidate).1 = some path := by
  rw [fst_source?, canonical?_of_canonicalPath h.1, Option.filter_some_pos]
  exact (fst_isRegular s path).2 h.2

theorem source?_of_namesNoFile (h : NamesNoFile s.files s.directory candidate) :
    (source? s candidate).1 = none := by
  have hnot : ∀ {path}, CanonicalPath s.files s.directory candidate path →
      s.files.status s.directory path ≠ .ok (some .file) → (source? s candidate).1 = none := by
    intro path hp hs
    rw [fst_source?, canonical?_of_canonicalPath hp, Option.filter_some_neg]
    exact Bool.eq_false_iff.2 fun hr => hs ((fst_isRegular s path).1 hr)
  cases h with
  | invalid hv => rw [fst_source?, canonical?_of_invalid hv, Option.filter_none]
  | unchecked hp hs => exact hnot hp (by rw [hs]; exact fun h => nomatch h)
  | irregular hp hs hk => exact hnot hp (by rw [hs]; exact fun h => hk (Except.ok.inj h))

/-- A candidate names a regular file or it names none. -/
theorem namesFile_or_namesNoFile (files : FileAccess) (directory candidate : String) :
    (∃ path, NamesFile files directory candidate path) ∨
      NamesNoFile files directory candidate := by
  cases hv : FileAccess.validPath directory candidate with
  | error e => exact .inr (.invalid hv)
  | ok full =>
    obtain ⟨path, hp⟩ : ∃ path, CanonicalPath files directory candidate path := by
      cases hc : files.canonical directory full with
      | ok real => exact ⟨real, full, hv, .inl hc⟩
      | error e => exact ⟨full, full, hv, .inr ⟨rfl, e, hc⟩⟩
    cases hs : files.status directory path with
    | error e => exact .inr (.unchecked hp hs)
    | ok kind? =>
      by_cases hk : kind? = some .file
      · exact .inl ⟨path, hp, hk ▸ hs⟩
      · exact .inr (.irregular hp hs hk)

/-! ## What is noted on the way -/

/-- Looking for the source only notes entries for debugging. -/
theorem level_of_mem_source? {e : LogEntry} (h : e ∈ (source? s candidate).2) :
    e.level = .debug := by
  have hc : ∀ e ∈ (canonical? s candidate).2, e.level = .debug := by
    intro e he
    unfold canonical? at he
    split at he
    · rw [List.mem_singleton.1 he]
      rfl
    · split at he
      · cases he
      · rw [List.mem_singleton.1 he]
        rfl
  have hr : ∀ path, ∀ e ∈ (isRegular s path).2, e.level = .debug := by
    intro path e he
    unfold isRegular at he
    split at he
    · cases he
    · rw [List.mem_singleton.1 he]
      rfl
  unfold source? at h
  split at h
  · rename_i entries hx
    exact hc e (by rw [hx]; exact h)
  · rename_i found entries hx
    rcases List.mem_append.1 h with he | he
    · exact hc e (by rw [hx]; exact he)
    · exact hr found e he

/-- Loading from the environment only notes entries for debugging. -/
theorem level_of_mem_fromEnvironment {e : LogEntry} (h : e ∈ (fromEnvironment s).entries) :
    e.level = .debug := by
  unfold fromEnvironment at h
  dsimp only at h
  split at h
  · cases h
  · rw [List.mem_singleton.1 h]
    rfl

end Load

/-! ## One source -/

theorem load_of_namesFile {s : Surroundings} {candidate path : String}
    (h : NamesFile s.files s.directory candidate path) :
    load s candidate = Load.after (Load.source? s candidate).2 (Load.fromFile s path) := by
  have hs := Load.source?_of_namesFile h
  unfold load
  rcases hx : Load.source? s candidate with ⟨path?, entries⟩
  rw [hx] at hs
  cases hs
  rfl

theorem load_of_namesNoFile {s : Surroundings} {candidate : String}
    (h : NamesNoFile s.files s.directory candidate) :
    load s candidate = Load.after
      ((Load.source? s candidate).2 ++ [Load.absentEntry (Load.shownPath s candidate)])
      (Load.fromEnvironment s) := by
  have hs := Load.source?_of_namesNoFile h
  unfold load
  rcases hx : Load.source? s candidate with ⟨path?, entries⟩
  rw [hx] at hs
  cases hs
  rfl

/-- **A configuration has exactly one source.** Where a candidate names a regular file, any two
environments give one outcome, and a tree that is loaded names that file. Where it names none, the
outcome is that of the environment, whatever the files are: only entries of the log may differ,
the tree has no path, nothing is warned of, and the one entry for information says that there is
no configuration file. -/
theorem load_source (s : Surroundings) (candidate : String) :
    (∀ path, NamesFile s.files s.directory candidate path →
      (∀ e₁ e₂, load { s with environment := e₁ } candidate =
        load { s with environment := e₂ } candidate) ∧
      ∀ l, (load s candidate).result = .ok l →
        l.tree.toJson.at? ["path"] = some (.string path)) ∧
    (NamesNoFile s.files s.directory candidate →
      (load s candidate).result = (Load.fromEnvironment s).result ∧
      (load s candidate).lookups = (Load.fromEnvironment s).lookups ∧
      (∀ others, NamesNoFile others s.directory candidate →
        (load { s with files := others } candidate).result = (load s candidate).result ∧
        (load { s with files := others } candidate).lookups = (load s candidate).lookups) ∧
      (∀ l, (load s candidate).result = .ok l → l.tree.toJson.at? ["path"] = none) ∧
      (∀ x ∈ (load s candidate).entries, x.level ≠ .warn) ∧
      ∃ x, (load s candidate).entries.filter (fun x => x.level = .info) = [x] ∧
        x.event = "config_file_not_found") := by
  constructor
  · intro path h
    refine ⟨fun e₁ e₂ => ?_, fun l hl => ?_⟩
    · rw [load_of_namesFile (s := { s with environment := e₁ }) h,
        load_of_namesFile (s := { s with environment := e₂ }) h]
      rfl
    · rw [load_of_namesFile h] at hl
      exact (Load.isTree_fromFile hl).2
  · intro h
    have hs := load_of_namesNoFile h
    have hdebug : ∀ x ∈ (Load.fromEnvironment s).entries, x.level = .debug :=
      fun x hx => Load.level_of_mem_fromEnvironment hx
    refine ⟨by rw [hs]; rfl, by rw [hs]; rfl, fun others ho => ?_, fun l hl => ?_, ?_, ?_⟩
    · rw [hs, load_of_namesNoFile (s := { s with files := others }) ho]
      exact ⟨rfl, rfl⟩
    · rw [hs] at hl
      exact (Load.isTree_fromEnvironment hl).2
    · intro x hx
      rw [hs] at hx
      rcases List.mem_append.1 hx with hx | hx
      · rcases List.mem_append.1 hx with hx | hx
        · rw [Load.level_of_mem_source? hx]
          decide
        · rw [List.mem_singleton.1 hx]
          exact fun hc => nomatch hc
      · rw [hdebug x hx]
        decide
    · refine ⟨Load.absentEntry (Load.shownPath s candidate), ?_, rfl⟩
      rw [hs]
      show List.filter _ ((Load.source? s candidate).2 ++
        [Load.absentEntry (Load.shownPath s candidate)] ++ (Load.fromEnvironment s).entries) = _
      have hbefore : List.filter (fun x => x.level = .info) (Load.source? s candidate).2 = [] :=
        List.filter_eq_nil_iff.2 fun x hx => by simp [Load.level_of_mem_source? hx]
      have hafter : List.filter (fun x => x.level = .info) (Load.fromEnvironment s).entries = [] :=
        List.filter_eq_nil_iff.2 fun x hx => by simp [hdebug x hx]
      rw [List.filter_append, List.filter_append, hbefore, hafter]
      rfl

theorem load_source_oneFile :
    (NamesFile oneFile.files "/" "a" "/a" ∧
      load oneFile "a" = load { oneFile with environment := .empty } "a") ∧
    (NamesNoFile oneFile.files "/" "b" ∧
      (load oneFile "b").result = (Load.fromEnvironment oneFile).result) := by
  have ha : NamesFile oneFile.files "/" "a" "/a" :=
    ⟨⟨"/a", eq_ok_of_toOption (by decide +kernel), .inl (eq_ok_of_toOption (by decide +kernel))⟩,
      eq_ok_of_toOption (by decide +kernel)⟩
  have hb : NamesNoFile oneFile.files "/" "b" :=
    have hpath : CanonicalPath oneFile.files "/" "b" "/b" :=
      ⟨"/b", eq_ok_of_toOption (by decide +kernel), .inl (eq_ok_of_toOption (by decide +kernel))⟩
    have hnone : oneFile.files.status "/" "/b" = .ok none := eq_ok_of_toOption (by decide +kernel)
    .irregular hpath hnone (by decide)
  exact ⟨⟨ha, ((load_source oneFile "a").1 "/a" ha).1 oneFile.environment .empty⟩,
    ⟨hb, ((load_source oneFile "b").2 hb).1⟩⟩

end WakeConfig
