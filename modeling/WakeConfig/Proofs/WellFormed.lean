import WakeConfig.Files.Tree
import WakeConfig.Load
import WakeConfig.Proofs.FileSections

/-!
# Loaded trees are well formed

Whatever the files, the environment and the answers of the resolver are, a tree that is loaded is
complete. `ends_tree` says it of the trees that are built from the environment, and
`isTree_of_loaded` of the trees of both sources.
-/

namespace WakeConfig

/-! ## From the environment -/

namespace FromEnvironment

open Reader (Source Trace)

theorem le_of_coerce {max : Nat} {text : String} {n : Nat}
    (h : Coerce.unsigned? max text = some n) : n ≤ max := by
  unfold Coerce.unsigned? at h
  dsimp only at h
  split at h
  · split at h
    · split at h
      · rename_i hle
        cases h
        exact Int.ofNat_le.1 hle
      · cases h
    · cases h
  · cases h

/-- A variable that holds no number in range leaves the default. -/
theorem ends_number (s : Source) {max : Nat} (key : String) {fallback : Nat}
    (hf : fallback ≤ max) :
    Ends (· ≤ max) (fun _ => True)
      (Reader.unsigned s max key fallback : Building Nat) := by
  refine Ends.lift fun trace => ?_
  show ((s.environment.get? (Reader.fullName key)).bind (Coerce.unsigned? max)).getD fallback ≤ max
  cases h : (s.environment.get? (Reader.fullName key)).bind (Coerce.unsigned? max) with
  | none => exact hf
  | some n =>
    obtain ⟨text, -, hn⟩ := Option.bind_eq_some_iff.1 h
    exact le_of_coerce hn

/-- An address is that of the variable where its text resolves, and the default anywhere else; only
a foreign error is passed on. -/
theorem fst_socketAddress (s : Source) (key fallback : String) (trace : Trace) :
    ((Reader.socketAddress s key fallback).run trace).1 =
      match s.environment.get? (Reader.fullName key) with
      | none => Reader.literal fallback
      | some text =>
        match (SocketAddress.resolve (s.resolver trace.lookups) text).outcome with
        | .ok a => .ok a
        | .error (.own _) => Reader.literal fallback
        | .error (.foreign raised) => .error (.foreign raised) := by
  simp only [Reader.socketAddress, Reader.raw]
  cases s.environment.get? (Reader.fullName key) with
  | none => rfl
  | some text =>
    dsimp only [bind, StateT.bind, StateT.run, modify, modifyGet, MonadStateOf.modifyGet,
      StateT.modifyGet, pure, StateT.pure, get, getThe, MonadStateOf.get, StateT.get]
    cases (SocketAddress.resolve (s.resolver trace.lookups) text).outcome with
    | ok a => rfl
    | error e => cases e <;> rfl

theorem isWellFormed_of_literal {fallback : String} {a : SocketAddress}
    (h : Reader.literal fallback = .ok a) : a.IsWellFormed := by
  rw [Reader.literal] at h
  cases hparse : SocketAddress.parse fallback with
  | ok b =>
    rw [hparse] at h
    cases h
    exact SocketAddress.isWellFormed_of_parse hparse
  | error e =>
    rw [hparse] at h
    cases h

theorem isWellFormed_of_socketAddress {s : Source} {key fallback : String} {trace : Trace}
    {a : SocketAddress} (h : ((Reader.socketAddress s key fallback).run trace).1 = .ok a) :
    a.IsWellFormed := by
  rw [fst_socketAddress] at h
  split at h
  · exact isWellFormed_of_literal h
  · split at h
    · rename_i b hb
      cases h
      exact SocketAddress.isWellFormed_of_resolve hb
    · exact isWellFormed_of_literal h
    · cases h

theorem ends_address (s : Source) (key fallback : String) :
    Ends SocketAddress.IsWellFormed (fun _ => True) (address s key fallback) := by
  unfold address
  have hread : Ends (fun x : Except (Raised AddressError) SocketAddress => ∀ a, x = .ok a →
      a.IsWellFormed) (fun _ => True) (Reader.socketAddress s key fallback : Building _) :=
    Ends.lift fun trace a h => isWellFormed_of_socketAddress h
  refine hread.bind fun x hx => ?_
  cases x with
  | ok a => exact Ends.pure (hx a rfl)
  | error e => exact Ends.throw trivial

theorem ends_front (s : Source) :
    Ends (fun c : FrontConfig => c.address.IsWellFormed ∧ c.protocol ≤ Default.maxU32)
      (fun _ => True) (front s) := by
  refine (ends_address s _ _).bind fun a ha => Ends.step (Ends.any _) fun version => ?_
  exact (ends_number s _ (by decide)).bind fun n hn => Ends.pure ⟨ha, hn⟩

theorem ends_server (s : Source) (command : String) :
    Ends (fun c : ServerConfig => c.address.IsWellFormed ∧ c.startTimeout ≤ Default.maxU32 ∧
      c.stopTimeout ≤ Default.maxU32) (fun _ => True) (server s command) := by
  refine Ends.step (Ends.any _) fun directory => (ends_address s _ _).bind fun a ha => ?_
  -- five truth values stand before the two times, and four behind them
  iterate 5 refine Ends.step (Ends.any _) fun _ => ?_
  refine (ends_number s _ (show 300 ≤ Default.maxU32 by decide)).bind fun start hstart => ?_
  refine (ends_number s _ (show 150 ≤ Default.maxU32 by decide)).bind fun stop hstop => ?_
  iterate 4 refine Ends.step (Ends.any _) fun _ => ?_
  exact Ends.pure ⟨ha, hstart, hstop⟩

theorem ends_time (s : Source) :
    Ends (fun c : TimeConfig => c.sleepAfter ≤ Default.maxU32 ∧
      c.minOnlineTime ≤ Default.maxU32) (fun _ => True) (time s) := by
  refine (ends_number s _ (by decide)).bind fun sleep hsleep => ?_
  exact (ends_number s _ (by decide)).bind fun online honline => Ends.pure ⟨hsleep, honline⟩

theorem ends_forward (s : Source) :
    Ends (fun c : ForwardConfig => c.address.IsWellFormed) (fun _ => True) (forward s) :=
  (ends_address s _ _).bind fun _ ha => Ends.step (Ends.any _) fun _ => Ends.pure ha

theorem ends_lobby (s : Source) :
    Ends (fun c : LobbyConfig => c.timeout ≤ Default.maxU32) (fun _ => True) (lobby s) := by
  refine (ends_number s _ (by decide)).bind fun n hn => ?_
  iterate 2 refine Ends.step (Ends.any _) fun _ => ?_
  exact Ends.pure hn

theorem ends_join (s : Source) :
    Ends (fun c : JoinConfig => c.forward.address.IsWellFormed ∧
      c.hold.timeout ≤ Default.maxU32 ∧ c.lobby.timeout ≤ Default.maxU32) (fun _ => True)
      (join s) := by
  refine Ends.step (Ends.any _) fun methods => Ends.step (Ends.any _) fun kick => ?_
  refine (ends_number s _ (by decide)).bind fun hold hhold => ?_
  refine (ends_forward s).bind fun forward hforward => ?_
  exact (ends_lobby s).bind fun lobby hlobby => Ends.pure ⟨hforward, hhold, hlobby⟩

theorem ends_rcon (s : Source) :
    Ends (fun c : RconConfig => c.port ≤ Default.maxU16) (fun _ => True) (rcon s) := by
  refine Ends.step (Ends.any _) fun enabled => ?_
  refine (ends_number s _ (show 25575 ≤ Default.maxU16 by decide)).bind fun port hport => ?_
  iterate 3 refine Ends.step (Ends.any _) fun _ => ?_
  exact Ends.pure hport

/-- Every tree that an environment describes is well formed and names no file. -/
theorem ends_tree (s : Source) :
    Ends (fun c : Config => c.IsWellFormed ∧ c.path = none) (fun _ => True) (tree s) := by
  refine Ends.step (Ends.any _) fun command => ?_
  refine (ends_front s).bind fun front hfront => ?_
  refine (ends_server s command).bind fun server hserver => ?_
  refine (ends_time s).bind fun time htime => Ends.step (Ends.any _) fun motd => ?_
  refine (ends_join s).bind fun join hjoin => Ends.step (Ends.any _) fun lockout => ?_
  refine (ends_rcon s).bind fun rcon hrcon => ?_
  iterate 2 refine Ends.step (Ends.any _) fun _ => ?_
  refine Ends.pure ⟨?_, rfl⟩
  exact
    { frontAddress := hfront.1, protocol := hfront.2
      serverAddress := hserver.1, startTimeout := hserver.2.1, stopTimeout := hserver.2.2
      sleepAfter := htime.1, minOnlineTime := htime.2
      forwardAddress := hjoin.1, holdTimeout := hjoin.2.1, lobbyTimeout := hjoin.2.2
      rconPort := hrcon }

end FromEnvironment

/-! ## Loaded trees -/

namespace Load

/-- Finishing a tree keeps it well formed, and the tree of parts has its values. -/
theorem isTree_finish {directory : String} {path? : Option String} {common : CommonParts}
    {c : Config} (hc : c.IsWellFormed) :
    (finish directory path? common c).tree.toJson.IsTree ∧
      (finish directory path? common c).tree.toJson.at? ["path"] = path?.map Json.string := by
  have hl : (located directory path? c).IsWellFormed :=
    { hc with }
  have ht : (finish directory path? common c).tree.toJson = (located directory path? c).toJson :=
    Part.toJson_close _
  rw [ht]
  exact ⟨hl.isTree, Config.at?_path _⟩

/-- The trees of a file are complete and name the file. -/
theorem isTree_fromFile {s : Surroundings} {path : String} {l : LoadedConfig}
    (h : (fromFile s path).result = .ok l) :
    l.tree.toJson.IsTree ∧ l.tree.toJson.at? ["path"] = some (.string path) := by
  unfold fromFile at h
  split at h
  · cases h
  · rename_i text _
    dsimp only at h
    split at h
    · cases h
    · rename_i c hc
      cases h
      unfold FromToml.parse at hc
      split at hc
      · cases hc
      · exact isTree_finish ((FromToml.ends_tree s.platform s.resolver _ []).value hc).wellFormed

/-- The trees of an environment are complete and name no file. -/
theorem isTree_fromEnvironment {s : Surroundings} {l : LoadedConfig}
    (h : (fromEnvironment s).result = .ok l) :
    l.tree.toJson.IsTree ∧ l.tree.toJson.at? ["path"] = none := by
  unfold fromEnvironment at h
  dsimp only at h
  split at h
  · cases h
  · rename_i c hc
    cases h
    exact isTree_finish ((FromEnvironment.ends_tree _ _).value hc).1

end Load

/-- **Every tree that is loaded is complete.** Whatever the files, the environment and the answers
of the resolver are, a tree from a candidate path, from a file or from the environment has all its
sections and fields, its addresses are literals of the family that they name with a port, and its
numbers are in range. A tree has a path exactly when it comes from a file, and then the path is
that of the file. -/
theorem isTree_of_loaded (s : Surroundings) :
    (∀ candidate l, (load s candidate).result = .ok l → l.tree.toJson.IsTree ∧
      l.tree.toJson.at? ["path"] = (Load.source? s candidate).1.map Json.string) ∧
    (∀ path l, (Load.fromFile s path).result = .ok l → l.tree.toJson.IsTree ∧
      l.tree.toJson.at? ["path"] = some (.string path)) ∧
    (∀ l, (Load.fromEnvironment s).result = .ok l → l.tree.toJson.IsTree ∧
      l.tree.toJson.at? ["path"] = none) := by
  refine ⟨fun candidate l h => ?_, fun path l => Load.isTree_fromFile,
    fun l => Load.isTree_fromEnvironment⟩
  unfold load at h
  split at h
  · rename_i path entries hs
    rw [hs]
    exact Load.isTree_fromFile h
  · rename_i entries hs
    rw [hs]
    exact Load.isTree_fromEnvironment h

/-- Surroundings with one file, whose server address is a name, and with variables. -/
def oneFile : Surroundings where
  files := (FileTree.empty.put ["a"]
    (.file "server=\x7bcommand=\"x\",address=\"h:1\"\x7d".toUTF8.toList)).access
  directory := "/"
  environment := ⟨[("LAZYMC_SERVER_COMMAND", "x"), ("LAZYMC_RCON_PORT", "70000")]⟩
  resolver := fun _ _ => .addresses ["h", "::1"]
  platform := .other
  reason := fun _ => "Unexpected character"

theorem isTree_oneFile :
    (∃ l, (load oneFile "a").result = .ok l ∧ l.tree.toJson.IsTree) ∧
    (∃ l, (Load.fromFile oneFile "/a").result = .ok l ∧
      l.tree.toJson.at? ["path"] = some (.string "/a")) ∧
    (∃ l, (Load.fromEnvironment oneFile).result = .ok l ∧
      l.tree.toJson.IsTree ∧ l.tree.toJson.at? ["path"] = none) := by
  obtain ⟨l, hl⟩ := exists_ok (x := (load oneFile "a").result) (by decide +kernel)
  obtain ⟨m, hm⟩ := exists_ok (x := (Load.fromFile oneFile "/a").result) (by decide +kernel)
  obtain ⟨n, hn⟩ := exists_ok (x := (Load.fromEnvironment oneFile).result) (by decide +kernel)
  exact ⟨⟨l, hl, ((isTree_of_loaded oneFile).1 "a" l hl).1⟩,
    ⟨m, hm, ((isTree_of_loaded oneFile).2.1 "/a" m hm).2⟩,
    ⟨n, hn, (isTree_of_loaded oneFile).2.2 n hn⟩⟩

end WakeConfig
