import WakeConfig.Proofs.Loaded
import WakeConfig.Proofs.RealPaths
import WakeConfig.Proofs.Source

/-!
# Canonical paths

A candidate that leads to a regular file on a short way names it by the path of the place at which
the file stands, and this path names itself. A candidate that leads there on another way names the
file as it is written, made absolute, and so does this path. Either way there is one outcome for one
name: `load_canonical`.
-/

namespace WakeConfig

/-! ## Requests -/

namespace FileAccess

variable {files : FileAccess} {directory p full : String}

/-- The files stand where those of a tree do. Whether the content of a file can be read, and what it
is, is left open. -/
structure Shows (files : FileAccess) (t : FileTree) : Prop where
  realPath : files.realPath = t.access.realPath
  kind : files.kind = t.access.kind

theorem validPath_eq_ok : validPath directory p = .ok full ↔
    (p ≠ "" ∧ Char.ofNat 0 ∉ p.toList) ∧ full = Path.resolve directory p := by
  unfold validPath
  split
  · rename_i h
    simp [h]
  · rename_i h
    split
    · rename_i hnull
      simp [hnull]
    · rename_i hnull
      simp [h, hnull, eq_comm]

theorem request_eq_ok {ask : String → Except FileError α} {a : α} :
    request directory p ask = .ok a ↔
      ∃ full, validPath directory p = .ok full ∧ ask full = .ok a := by
  unfold request
  cases validPath directory p with
  | error e => simp
  | ok full => cases hask : ask full <;> simp [Except.mapError, hask]

theorem request_of_validPath {ask : String → Except FileError α}
    (h : validPath directory p = .ok full) :
    request directory p ask = (ask full).mapError .file := by
  rw [request, h]

theorem orMissing_eq_ok {missing a : α} {x : Except FileError α} (h : orMissing missing x = .ok a) :
    x = .ok a ∨ a = missing ∧ ∃ e, x = .error e := by
  cases x with
  | ok b => exact .inl h
  | error e =>
    unfold orMissing at h
    dsimp only at h
    split at h
    · exact .inr ⟨(Except.ok.inj h).symm, e, rfl⟩
    · cases h

end FileAccess

namespace FileTree

variable {t : FileTree} {place : List String} {p real : String}

theorem realPath_access_eq_ok : t.access.realPath p = .ok real ↔
    ∃ place, t.find p = .ok place ∧ t.ShortWay [] (names p) ∧ real = Path.render place := by
  have hreal : t.access.realPath p = .ok real ↔
      ∃ place, t.real maxLinks [] (names p) = .ok place ∧ real = Path.render place := by
    simp only [access]
    cases t.real maxLinks [] (names p) <;> simp [Except.map, Except.mapError, eq_comm]
  simp only [hreal, real_names_eq_ok_iff, and_assoc]

theorem realPath_access_of_not_shortWay (h : t.find p = .ok place)
    (hway : ¬ t.ShortWay [] (names p)) :
    t.access.realPath p = .error ⟨.realpath p, .nameTooLong⟩ := by
  simp only [access, real_names_of_not_shortWay h hway]
  rfl

theorem file_of_kind_access (h : t.access.kind p = .ok .file) : p.utf8ByteSize < maxPath ∧
    ∃ place content, t.find p = .ok place ∧ t.entryAt place = some (.file content) := by
  simp only [access, locate] at h
  split at h
  · cases h
  · rename_i hsize
    refine ⟨Nat.lt_of_not_le hsize, ?_⟩
    cases hfind : t.find p with
    | error e => simp [hfind, Except.map, Except.mapError] at h
    | ok place =>
      simp only [hfind, Except.map, Except.mapError, Except.ok.injEq, kindOf] at h
      split at h
      · rename_i content hentry
        exact ⟨place, content, rfl, hentry⟩
      · cases h
      · cases h

end FileTree

/-! ## Candidates -/

section

variable {files : FileAccess} {t : FileTree} {directory candidate path full : String}
  {place : List String}

/-- Looking at a regular file finds it under its absolute path, which is not too long. -/
theorem FileAccess.Shows.file_of_status (hfiles : files.Shows t)
    (h : files.status directory path = .ok (some .file)) :
    FileAccess.validPath directory path = .ok (Path.resolve directory path) ∧
      (Path.resolve directory path).utf8ByteSize < FileTree.maxPath ∧
      ∃ place content, t.find (Path.resolve directory path) = .ok place ∧
        t.entryAt place = some (.file content) := by
  obtain ⟨full, hvalid, hkind⟩ := FileAccess.request_eq_ok.1 h
  obtain rfl : full = Path.resolve directory path := (FileAccess.validPath_eq_ok.1 hvalid).2
  refine ⟨hvalid, FileTree.file_of_kind_access ?_⟩
  rw [← hfiles.kind]
  cases hk : files.kind (Path.resolve directory path) with
  | ok kind =>
    rw [hk] at hkind
    exact congrArg Except.ok (Option.some.inj (Except.ok.inj hkind))
  | error e =>
    rw [hk] at hkind
    rcases FileAccess.orMissing_eq_ok hkind with h | ⟨h, -⟩
    · cases h
    · cases h

/-- The path that leads to a place on a short way is followed there. -/
theorem FileAccess.Shows.canonical_of_shortWay (hfiles : files.Shows t)
    (hvalid : FileAccess.validPath directory full = .ok full) (hfind : t.find full = .ok place)
    (hway : t.ShortWay [] (FileTree.names full)) :
    files.canonical directory full = .ok (Path.render place) := by
  have hreal : files.realPath full = .ok (Path.render place) := by
    rw [hfiles.realPath]
    exact FileTree.realPath_access_eq_ok.2 ⟨place, hfind, hway, rfl⟩
  rw [FileAccess.canonical, FileAccess.request_of_validPath hvalid, hreal]
  rfl

/-- The path of a place without links stays as it is. -/
theorem FileAccess.Shows.canonical_of_stands (hfiles : files.Shows t)
    (hvalid : FileAccess.validPath directory (Path.render place) = .ok (Path.render place))
    (hstands : t.Stands place) (hsize : (Path.render place).utf8ByteSize < FileTree.maxPath) :
    files.canonical directory (Path.render place) = .ok (Path.render place) :=
  hfiles.canonical_of_shortWay hvalid hstands.find_render (hstands.shortWay_names hsize)

/-- The path that leads to a place on another way is not: the refusal is not that of an entry that
is missing. -/
theorem FileAccess.Shows.canonical_of_not_shortWay (hfiles : files.Shows t)
    (hvalid : FileAccess.validPath directory full = .ok full) (hfind : t.find full = .ok place)
    (hway : ¬ t.ShortWay [] (FileTree.names full)) :
    files.canonical directory full = .error (.file ⟨.realpath full, .nameTooLong⟩) := by
  have hreal : files.realPath full = .error ⟨.realpath full, .nameTooLong⟩ := by
    rw [hfiles.realPath]
    exact FileTree.realPath_access_of_not_shortWay hfind hway
  rw [FileAccess.canonical, FileAccess.request_of_validPath hvalid, hreal]
  rfl

/-- A regular file is found at a path that is not too long. -/
theorem FileAccess.Shows.status_of_find {content : List UInt8} (hfiles : files.Shows t)
    (hvalid : FileAccess.validPath directory full = .ok full)
    (hsize : full.utf8ByteSize < FileTree.maxPath) (hfind : t.find full = .ok place)
    (hentry : t.entryAt place = some (.file content)) :
    files.status directory full = .ok (some .file) := by
  have hkind : files.kind full = .ok .file := by
    rw [hfiles.kind]
    simp only [FileTree.access, FileTree.locate, if_neg (Nat.not_le.2 hsize), hfind, Except.map,
      hentry]
    rfl
  rw [FileAccess.status, FileAccess.request_of_validPath hvalid, hkind]
  rfl

/-- The text of a file is found at a path that is not too long. -/
theorem FileAccess.readText_of_find {content : List UInt8}
    (hcontent : files.content = t.access.content)
    (hvalid : FileAccess.validPath directory full = .ok full)
    (hsize : full.utf8ByteSize < FileTree.maxPath) (hfind : t.find full = .ok place)
    (hentry : t.entryAt place = some (.file content)) :
    files.readText directory full = .ok (String.ofList (Text.Utf8.decode content)) := by
  have hbytes : files.content full = .ok content := by
    rw [hcontent]
    simp only [FileTree.access, FileTree.locate, if_neg (Nat.not_le.2 hsize), hfind, hentry]
  rw [FileAccess.readText, FileAccess.request_of_validPath hvalid, hbytes]
  rfl

/-- An absolute path stays as it is. -/
theorem resolve_validPath (h : FileAccess.validPath directory candidate = .ok full) :
    Path.IsPlain (Path.place (Path.place [] directory) candidate) ∧
      full = Path.render (Path.place (Path.place [] directory) candidate) ∧
      Path.resolve directory full = full := by
  have hplain : Path.IsPlain (Path.place (Path.place [] directory) candidate) :=
    Path.isPlain_place (Path.isPlain_place (fun name (hname : name ∈ []) => nomatch hname) _) _
  obtain rfl := (FileAccess.validPath_eq_ok.1 h).2
  exact ⟨hplain, rfl, Path.resolve_render directory hplain⟩

/-- How a candidate names a regular file. On a short way it is followed to the place at which the
file stands, and on any other it stays as it is. -/
theorem NamesFile.found (hfiles : files.Shows t) (h : NamesFile files directory candidate path) :
    ∃ full place content, FileAccess.validPath directory candidate = .ok full ∧
      t.find full = .ok place ∧ t.find path = .ok place ∧
      t.entryAt place = some (.file content) ∧
      (t.ShortWay [] (FileTree.names full) ∧ files.canonical directory full = .ok path ∧
          path = Path.render place ∨
        ¬ t.ShortWay [] (FileTree.names full) ∧
          (∃ e, files.canonical directory full = .error e) ∧ path = full) := by
  obtain ⟨⟨full, hfull, hcanonical⟩, hstatus⟩ := h
  obtain ⟨hvalid, -, place, content, hfind, hentry⟩ := hfiles.file_of_status hstatus
  obtain ⟨-, -, hresolve⟩ := resolve_validPath hfull
  have hfollowed : files.canonical directory full = .ok path ∧ files.realPath full = .ok path ∨
      path = full := by
    rcases hcanonical with hok | ⟨rfl, -⟩
    · obtain ⟨full', hfull', hask⟩ := FileAccess.request_eq_ok.1 hok
      obtain rfl : full' = full := (FileAccess.validPath_eq_ok.1 hfull').2.trans hresolve
      exact (FileAccess.orMissing_eq_ok hask).imp (fun hreal => ⟨hok, hreal⟩) And.left
    · exact .inr rfl
  rcases hfollowed with ⟨hok, hreal⟩ | rfl
  · rw [hfiles.realPath] at hreal
    obtain ⟨place', hfind', hway, rfl⟩ := FileTree.realPath_access_eq_ok.1 hreal
    have hstands := FileTree.stands_find hfind'
    rw [Path.resolve_render directory hstands.isPlain, hstands.find_render] at hfind
    cases hfind
    exact ⟨full, place, content, hfull, hfind', hstands.find_render, hentry, .inl ⟨hway, hok, rfl⟩⟩
  · rw [hresolve] at hvalid hfind
    refine ⟨path, place, content, hfull, hfind, hfind, hentry, ?_⟩
    by_cases hway : t.ShortWay [] (FileTree.names path)
    · have hshort := hfiles.canonical_of_shortWay hvalid hfind hway
      rcases hcanonical with hok | ⟨-, e, herror⟩
      · exact .inl ⟨hway, hok, Except.ok.inj (hok.symm.trans hshort)⟩
      · cases herror.symm.trans hshort
    · exact .inr ⟨hway, ⟨_, hfiles.canonical_of_not_shortWay hvalid hfind hway⟩, rfl⟩

/-- The path that names a regular file stays as it is. -/
theorem NamesFile.validPath (hfiles : files.Shows t)
    (h : NamesFile files directory candidate path) :
    FileAccess.validPath directory path = .ok path ∧ path.utf8ByteSize < FileTree.maxPath := by
  obtain ⟨full, place, content, hfull, hfind, -, -, hpath⟩ := h.found hfiles
  obtain ⟨hvalid, hsize, -⟩ := hfiles.file_of_status h.2
  have hresolve : Path.resolve directory path = path := by
    rcases hpath with ⟨-, -, rfl⟩ | ⟨-, -, rfl⟩
    · exact Path.resolve_render directory (FileTree.stands_find hfind).isPlain
    · exact (resolve_validPath hfull).2.2
  rw [hresolve] at hvalid hsize
  exact ⟨hvalid, hsize⟩

/-- The path of a regular file names that file. -/
theorem NamesFile.self (hfiles : files.Shows t) (h : NamesFile files directory candidate path) :
    NamesFile files directory path path := by
  obtain ⟨hvalid, hsize⟩ := h.validPath hfiles
  obtain ⟨full, place, content, -, hfind, -, -, hpath⟩ := h.found hfiles
  refine ⟨⟨path, hvalid, ?_⟩, h.2⟩
  rcases hpath with ⟨-, -, rfl⟩ | ⟨-, he, rfl⟩
  · exact .inl (hfiles.canonical_of_stands hvalid (FileTree.stands_find hfind) hsize)
  · exact .inr ⟨rfl, he⟩

/-- Following a candidate that names a file notes what following the path of the file does. -/
theorem NamesFile.canonical?_eq {s : Surroundings} (hfiles : s.files.Shows t)
    (h : NamesFile s.files s.directory candidate path) :
    Load.canonical? s candidate = (some path, (Load.canonical? s path).2) := by
  obtain ⟨hvalid, hsize⟩ := h.validPath hfiles
  obtain ⟨full, place, content, hfull, hfind, -, -, hpath⟩ := h.found hfiles
  rcases hpath with ⟨-, hcanonical, rfl⟩ | ⟨-, ⟨e, he⟩, rfl⟩
  · have hself := hfiles.canonical_of_stands hvalid (FileTree.stands_find hfind) hsize
    simp only [Load.canonical?, hfull, hcanonical, hvalid, hself]
  · simp only [Load.canonical?, hfull, hvalid, he]

/-- Loading a candidate that names a file is loading the file at its path. What is noted on the way
is known from the path as well. -/
theorem NamesFile.load_eq {s : Surroundings} (hfiles : s.files.Shows t)
    (h : NamesFile s.files s.directory candidate path) :
    load s candidate = Load.after (Load.canonical? s path).2 (Load.fromFile s path) := by
  have hsource : (Load.source? s candidate).2 = (Load.canonical? s path).2 := by
    simp only [Load.source?, h.canonical?_eq hfiles, Load.isRegular, h.2, List.append_nil]
  rw [load_of_namesFile h, hsource]

/-- The server directory of a file is taken from the directory part of its path. -/
theorem at?_directory_fromFile {s : Surroundings} {ns : List String} {l : LoadedConfig}
    (hplain : Path.IsPlain ns) (hroot : ns ≠ [])
    (h : (Load.fromFile s (Path.render ns)).result = .ok l) :
    ∃ text c, s.files.readText s.directory (Path.render ns) = .ok text ∧
      (FromToml.parse s.platform s.resolver text).result = .ok c ∧
      l.tree.toJson.at? ["server", "directory"] =
        some (.string (Path.render (Path.place ns.dropLast c.server.directory))) := by
  obtain ⟨common, c, hgives, rfl⟩ := Load.result_fromFile_iff.1 h
  obtain ⟨text, hread, hparse, -⟩ := hgives.parse
  have hdirectory : Path.serverDirectory s.directory c.server.directory (some (Path.render ns))
      = Path.render (Path.place ns.dropLast c.server.directory) := by
    rcases List.eq_nil_or_concat ns with rfl | ⟨above, name, rfl⟩
    · exact absurd rfl hroot
    · rw [List.concat_eq_append] at hplain ⊢
      rw [List.dropLast_concat]
      exact Path.serverDirectory_render _ _ (fun x hx => hplain x (List.mem_append_left _ hx))
        (hplain name (List.mem_append_right _ List.mem_cons_self))
  refine ⟨text, c, hread, hparse, ?_⟩
  rw [Load.toJson_finish, ← hdirectory]
  rfl

/-- The path of a regular file has names. -/
theorem NamesFile.exists_names (hfiles : files.Shows t)
    (h : NamesFile files directory candidate path) :
    ∃ ns, Path.IsPlain ns ∧ ns ≠ [] ∧ path = Path.render ns := by
  obtain ⟨full, place, content, hfull, hfind, hpathFind, hentry, hpath⟩ := h.found hfiles
  have hns : ∃ ns, Path.IsPlain ns ∧ path = Path.render ns := by
    rcases hpath with ⟨-, -, rfl⟩ | ⟨-, -, rfl⟩
    · exact ⟨place, (FileTree.stands_find hfind).isPlain, rfl⟩
    · obtain ⟨hplain, hrender, -⟩ := resolve_validPath hfull
      exact ⟨_, hplain, hrender⟩
  obtain ⟨ns, hplain, rfl⟩ := hns
  refine ⟨ns, hplain, ?_, rfl⟩
  -- the root is a directory
  rintro rfl
  cases FileTree.Stands.root.find_render.symm.trans hpathFind
  cases hentry

end

/-! ## One file, one tree -/

/-- **A file is loaded under one path.** Where two candidates name one file, through whatever links,
they have one outcome. What names the file leads to one place: its path is that of this place if the
way there is short, and otherwise the name itself, made absolute. A tree that is loaded has this
path, its server directory is taken from the directory part of the path, and loading the path, as a
candidate or as a file, loads the tree again. -/
theorem load_canonical (s : Surroundings) {t : FileTree} (hfiles : s.files.Shows t)
    {p q f : String} (hp : NamesFile s.files s.directory p f)
    (hq : NamesFile s.files s.directory q f) :
    load s p = load s q ∧
    (∃ place content, t.Stands place ∧ t.entryAt place = some (.file content) ∧
      ∀ r, NamesFile s.files s.directory r f →
        t.find (Path.resolve s.directory r) = .ok place ∧
        (t.ShortWay [] (FileTree.names (Path.resolve s.directory r)) → f = Path.render place) ∧
        (¬ t.ShortWay [] (FileTree.names (Path.resolve s.directory r)) →
          f = Path.resolve s.directory r)) ∧
    ∀ l, (load s p).result = .ok l →
      l.tree.toJson.at? ["path"] = some (.string f) ∧
      (∃ ns text c, f = Path.render ns ∧ s.files.readText s.directory f = .ok text ∧
        (FromToml.parse s.platform s.resolver text).result = .ok c ∧
        l.tree.toJson.at? ["server", "directory"] =
          some (.string (Path.render (Path.place ns.dropLast c.server.directory)))) ∧
      ∀ path, l.tree.toJson.at? ["path"] = some (.string path) →
        load s path = load s p ∧ (Load.fromFile s path).result = .ok l := by
  have hload : ∀ {r}, NamesFile s.files s.directory r f →
      load s r = Load.after (Load.canonical? s f).2 (Load.fromFile s f) := fun h => h.load_eq hfiles
  refine ⟨(hload hp).trans (hload hq).symm, ?_, fun l hl => ?_⟩
  · obtain ⟨-, place, content, -, -, hfind, hentry, -⟩ := hp.found hfiles
    refine ⟨place, content, FileTree.stands_find hfind, hentry, fun r hr => ?_⟩
    obtain ⟨full, place', -, hfull, hfull', hfind', -, hpath⟩ := hr.found hfiles
    obtain rfl := (FileAccess.validPath_eq_ok.1 hfull).2
    cases hfind.symm.trans hfind'
    refine ⟨hfull', ?_⟩
    rcases hpath with ⟨hway, -, hf⟩ | ⟨hway, -, hf⟩
    · exact ⟨fun _ => hf, fun hnot => absurd hway hnot⟩
    · exact ⟨fun h => absurd h hway, fun _ => hf⟩
  · rw [hload hp] at hl
    have hpath := (Load.isTree_fromFile hl).2
    refine ⟨hpath, ?_, fun path h => ?_⟩
    · obtain ⟨ns, hplain, hroot, rfl⟩ := hp.exists_names hfiles
      obtain ⟨text, c, hread, hparse, hdirectory⟩ := at?_directory_fromFile hplain hroot hl
      exact ⟨ns, text, c, rfl, hread, hparse, hdirectory⟩
    · rw [hpath] at h
      obtain rfl : f = path := Json.string.inj (Option.some.inj h)
      exact ⟨(hload (hp.self hfiles)).trans (hload hp).symm, hl⟩

/-- A directory with a file, a link to the directory and a link through that one to the file. -/
def linkedFile : FileTree :=
  (((FileTree.empty.put ["d"] .directory).put ["d", "a"]
    (.file "server=\x7bcommand=\"x\",directory=\"w\"\x7d".toUTF8.toList)).put ["k"]
    (.link "d")).put ["l"] (.link "k/a")

/-- Where files are loaded with no variables and no names. -/
def linkedSurroundings : Surroundings :=
  ⟨linkedFile.access, "/", .empty, fun _ _ => .addresses [], .other, fun _ => ""⟩

theorem load_canonical_linkedFile :
    NamesFile linkedFile.access "/" "l" "/d/a" ∧ NamesFile linkedFile.access "/" "k/a" "/d/a" ∧
    load linkedSurroundings "l" = load linkedSurroundings "k/a" ∧
    ∃ l, (load linkedSurroundings "l").result = .ok l ∧
      l.tree.toJson.at? ["path"] = some (.string "/d/a") ∧
      load linkedSurroundings "/d/a" = load linkedSurroundings "l" := by
  have hl : NamesFile linkedFile.access "/" "l" "/d/a" :=
    ⟨⟨"/l", eq_ok_of_toOption (by decide +kernel), .inl (eq_ok_of_toOption (by decide +kernel))⟩,
      eq_ok_of_toOption (by decide +kernel)⟩
  have hk : NamesFile linkedFile.access "/" "k/a" "/d/a" :=
    ⟨⟨"/k/a", eq_ok_of_toOption (by decide +kernel), .inl (eq_ok_of_toOption (by decide +kernel))⟩,
      eq_ok_of_toOption (by decide +kernel)⟩
  have hshows : linkedFile.access.Shows linkedFile := ⟨rfl, rfl⟩
  obtain ⟨hload, -, hresult⟩ := load_canonical linkedSurroundings hshows hl hk
  obtain ⟨l, hok⟩ := exists_ok (x := (load linkedSurroundings "l").result) (by decide +kernel)
  obtain ⟨hpath, -, hagain⟩ := hresult l hok
  exact ⟨hl, hk, hload, l, hok, hpath, (hagain "/d/a" hpath).1⟩

/-- A name of 250 bytes. -/
def longName : String := String.ofList (List.replicate 250 'n')

/-- Names that lead down into directories with long names and back up to a file. -/
def detourNames : List String :=
  "k" :: (List.replicate 9 longName ++ (List.replicate 17 ".." ++ ["a"]))

/-- A file, directories with long names one in the other, a link into their midst and, in another
directory, a link through the first one to the last of them and back to the file. -/
def detour : FileTree where
  entry? place :=
    if place = ["a"] then some (.file "server=\x7bcommand=\"x\"\x7d".toUTF8.toList)
    else if place = ["d"] then some .directory
    else if place = ["d", "m"] then some (.link (Path.render detourNames))
    else if place = ["k"] then some (.link (Path.render (List.replicate 8 longName)))
    else if place = List.replicate place.length longName ∧ place.length ≤ 17 then some .directory
    else none

/-- Where the file is loaded with no variables and no names. -/
def detourSurroundings : Surroundings :=
  ⟨detour.access, "/", .empty, fun _ _ => .addresses [], .other, fun _ => ""⟩

theorem size_longName : longName.utf8ByteSize = 250 := by decide +kernel

theorem longName_ne {s : String} (h : s.utf8ByteSize ≠ 250) : longName ≠ s := by
  rintro rfl
  exact h size_longName

theorem eq_of_mem_longName {c : Char} (h : c ∈ longName.toList) : c = 'n' := by
  unfold longName at h
  rw [String.toList_ofList] at h
  exact List.eq_of_mem_replicate h

theorem isName_longName : Path.IsName longName where
  nonempty := longName_ne (by decide)
  unsplit h := absurd (eq_of_mem_longName h) (by decide)
  dot := longName_ne (by decide)
  dotdot := longName_ne (by decide)

theorem entryAt_detour {i : Nat} (hi : i ≤ 17) :
    detour.entryAt (List.replicate i longName) = some .directory := by
  cases i with
  | zero => rfl
  | succ i =>
    have ha : longName ≠ "a" := longName_ne (by decide)
    have hd : longName ≠ "d" := longName_ne (by decide)
    have hk : longName ≠ "k" := longName_ne (by decide)
    simp [FileTree.entryAt, detour, List.replicate_succ, ha, hd, hk, hi]

/-- The way down into the directories with long names. -/
theorem leads_longNames (i j : Nat) (h : i + j ≤ 17) :
    detour.Leads 0 (List.replicate i longName) (List.replicate j longName)
      (List.replicate (i + j) longName) := by
  induction j generalizing i with
  | zero => exact .done
  | succ j ih =>
    have hnext : detour.entryAt (List.replicate i longName ++ [longName]) = some .directory := by
      rw [← List.replicate_succ']
      exact entryAt_detour (by omega)
    have hrest := ih (i + 1) (by omega)
    rw [Nat.add_right_comm, List.replicate_succ'] at hrest
    exact .step (entryAt_detour (by omega)) (.entry isName_longName.dot isName_longName.dotdot
      (by rw [size_longName]; decide) hnext nofun) hrest

/-- The way back from them. -/
theorem leads_up_longNames (i : Nat) (h : i ≤ 17) :
    detour.Leads 0 (List.replicate i longName) (List.replicate i "..") [] := by
  induction i with
  | zero => exact .done
  | succ i ih =>
    have hup : List.replicate i longName = (List.replicate (i + 1) longName).dropLast := by
      rw [List.dropLast_replicate, Nat.add_sub_cancel]
    have hrest := ih (by omega)
    rw [hup] at hrest
    exact .step (entryAt_detour h) (.up rfl) hrest

theorem areSegments_detourNames : Path.AreSegments detourNames := by
  have hk : "k" ≠ "" ∧ '/' ∉ "k".toList := by decide
  have hup : ".." ≠ "" ∧ '/' ∉ "..".toList := by decide
  have ha : "a" ≠ "" ∧ '/' ∉ "a".toList := by decide
  have hlong : longName ≠ "" ∧ '/' ∉ longName.toList :=
    ⟨isName_longName.nonempty, isName_longName.unsplit⟩
  intro s hs
  simp only [detourNames, List.mem_cons, List.mem_append, List.mem_replicate, List.not_mem_nil,
    or_false] at hs
  rcases hs with rfl | ⟨-, rfl⟩ | ⟨-, rfl⟩ | rfl
  · exact hk
  · exact hlong
  · exact hup
  · exact ha

/-- What is behind the link from the other directory, and what is behind the link that comes first
there. -/
theorem names_detour : FileTree.names (Path.render detourNames) = detourNames ∧
    FileTree.names (Path.render (List.replicate 8 longName)) = List.replicate 8 longName := by
  have hsplit : detourNames
      = ("k" :: (List.replicate 9 longName ++ List.replicate 17 "..")) ++ ["a"] := by
    rw [detourNames, List.cons_append, List.append_assoc]
  constructor
  · have hsegments := areSegments_detourNames
    rw [hsplit] at hsegments ⊢
    exact FileTree.names_render hsegments
  · rw [List.replicate_succ']
    refine FileTree.names_render fun s hs => ?_
    rw [← List.replicate_succ'] at hs
    rw [List.eq_of_mem_replicate hs]
    exact ⟨isName_longName.nonempty, isName_longName.unsplit⟩

theorem size_render_longNames (i : Nat) :
    (Path.render (List.replicate (i + 1) longName)).utf8ByteSize = 251 * (i + 1) := by
  induction i with
  | zero => decide +kernel
  | succ i ih =>
    rw [List.replicate_succ', Path.size_render_append, ih, size_longName, if_neg]
    · omega
    · exact List.cons_ne_nil _ _

theorem step_detour_d : detour.Step [] "d" 0 ["d"] [] :=
  .entry (by decide) (by decide) (by decide)
    (show detour.entryAt ["d"] = some .directory by simp [FileTree.entryAt, detour]) nofun

theorem step_detour_m : detour.Step ["d"] "m" 1 [] detourNames := by
  have hentry : detour.entryAt ["d", "m"] = some (.link (Path.render detourNames)) := by
    simp [FileTree.entryAt, detour]
  have hstep : detour.Step ["d"] "m" 1 _ (FileTree.names (Path.render detourNames)) :=
    .link (by decide) (by decide) (by decide) hentry
  rwa [if_pos (Path.isAbsolute_render _), names_detour.1] at hstep

theorem step_detour_k : detour.Step [] "k" 1 [] (List.replicate 8 longName) := by
  have hentry : detour.entryAt ["k"] = some (.link (Path.render (List.replicate 8 longName))) := by
    simp [FileTree.entryAt, detour]
  have hstep : detour.Step [] "k" 1 _
      (FileTree.names (Path.render (List.replicate 8 longName))) :=
    .link (by decide) (by decide) (by decide) hentry
  rwa [if_pos (Path.isAbsolute_render _), names_detour.2] at hstep

theorem step_detour_a : detour.Step [] "a" 0 ["a"] [] :=
  .entry (by decide) (by decide) (by decide)
    (show detour.entryAt ["a"] = some (.file _) by simp [FileTree.entryAt, detour]; rfl) nofun

/-- Behind both links the names lead down to the last of the directories, and back. -/
theorem detourNames_down (ns : List String) :
    List.replicate 8 longName ++ (List.replicate 9 longName ++ ns)
      = List.replicate 17 longName ++ ns := by
  rw [← List.append_assoc, List.replicate_append_replicate]

/-- The link leads to the file. -/
theorem find_detour : detour.find "/d/m" = .ok ["a"] := by
  have hnames : FileTree.names "/d/m" = ["d", "m"] := by decide
  have hback : detour.Leads 0 (List.replicate 17 longName)
      (List.replicate 17 ".." ++ ["a"]) ["a"] :=
    (leads_up_longNames 17 (by decide)).append_iff.2 (.step rfl step_detour_a .done)
  have hdown : detour.Leads 0 []
      (List.replicate 17 longName ++ (List.replicate 17 ".." ++ ["a"])) ["a"] :=
    (leads_longNames 0 17 (by decide)).append_iff.2 hback
  rw [← detourNames_down] at hdown
  have hd : detour.entryAt ["d"] = some .directory := by simp [FileTree.entryAt, detour]
  have hk : detour.Leads (1 + 0) [] (detourNames ++ []) ["a"] := by
    rw [List.append_nil]
    exact .step rfl step_detour_k hdown
  refine FileTree.find_eq_ok_iff.2 ⟨0 + (1 + (1 + 0)), by decide, ?_⟩
  rw [hnames]
  exact .step rfl step_detour_d (.step hd step_detour_m hk)

/-- On the way there the path of the last of the directories is too long. -/
theorem not_shortWay_detour : ¬ detour.ShortWay [] (FileTree.names "/d/m") := by
  have hnames : FileTree.names "/d/m" = ["d", "m"] := by decide
  intro h
  rw [hnames] at h
  obtain ⟨-, hm⟩ := step_detour_d.shortWay_cons.1 h
  obtain ⟨-, hk⟩ := step_detour_m.shortWay_cons.1 hm
  rw [List.append_nil] at hk
  obtain ⟨-, hdown⟩ := step_detour_k.shortWay_cons.1 hk
  rw [detourNames_down] at hdown
  have hsize := (leads_longNames 0 17 (by decide)).size_lt hdown (by decide)
  rw [Nat.zero_add, size_render_longNames 16] at hsize
  exact absurd hsize (by decide)

/-- The link names the file as it is written. -/
theorem namesFile_detour : NamesFile detour.access "/" "d/m" "/d/m" := by
  have hshows : detour.access.Shows detour := ⟨rfl, rfl⟩
  have hcandidate : FileAccess.validPath "/" "d/m" = .ok "/d/m" := eq_ok_of_toOption (by decide)
  have hfull : FileAccess.validPath "/" "/d/m" = .ok "/d/m" := eq_ok_of_toOption (by decide)
  have hcanonical := hshows.canonical_of_not_shortWay hfull find_detour not_shortWay_detour
  exact ⟨⟨"/d/m", hcandidate, .inr ⟨rfl, _, hcanonical⟩⟩,
    hshows.status_of_find hfull (by decide) find_detour rfl⟩

/-- A candidate that leads to the file loads it, and the server directory is that of its name. -/
theorem load_detour {candidate : String} {ns : List String} (hplain : Path.IsPlain ns)
    (hroot : ns ≠ []) (hfind : detour.find (Path.render ns) = .ok ["a"])
    (h : NamesFile detour.access "/" candidate (Path.render ns)) :
    ∃ l, (load detourSurroundings candidate).result = .ok l ∧
      l.tree.toJson.at? ["path"] = some (.string (Path.render ns)) ∧
      l.tree.toJson.at? ["server", "directory"] = some (.string (Path.render ns.dropLast)) := by
  have hshows : detour.access.Shows detour := ⟨rfl, rfl⟩
  obtain ⟨hvalid, hsize⟩ := h.validPath hshows
  obtain ⟨text, hread, hdirectory⟩ : ∃ text,
      detour.access.readText "/" (Path.render ns) = .ok text ∧
      (FromToml.parse .other (fun _ _ => .addresses []) text).result.toOption.map
        (fun c => c.server.directory) = some "." :=
    ⟨_, FileAccess.readText_of_find rfl hvalid hsize hfind rfl, by decide +kernel⟩
  obtain ⟨c, hparse, hdot⟩ := Option.map_eq_some_iff.1 hdirectory
  obtain ⟨l, hl⟩ : ∃ l, (Load.fromFile detourSurroundings (Path.render ns)).result = .ok l := by
    simp only [Load.fromFile, detourSurroundings, hread, eq_ok_of_toOption hparse]
    exact ⟨_, rfl⟩
  obtain ⟨text', c', hread', hparse', hat⟩ := at?_directory_fromFile hplain hroot hl
  cases hread.symm.trans hread'
  cases (eq_ok_of_toOption hparse).symm.trans hparse'
  have hhere : Path.place ns.dropLast "." = ns.dropLast := by
    have hsegments : Path.segments "." = ["."] := by decide
    rw [Path.place, hsegments, if_neg (by decide)]
    rfl
  rw [hdot, hhere] at hat
  refine ⟨l, ?_, (Load.isTree_fromFile hl).2, hat⟩
  rw [h.load_eq (s := detourSurroundings) hshows]
  exact hl

theorem isPlain_detour : Path.IsPlain ["d", "m"] := by
  intro s hs
  have hname : ∀ s ∈ ["d", "m"], s ≠ "" ∧ '/' ∉ s.toList ∧ s ≠ "." ∧ s ≠ ".." := by decide
  obtain ⟨hnonempty, hunsplit, hdot, hdotdot⟩ := hname s hs
  exact ⟨hnonempty, hunsplit, hdot, hdotdot⟩

/-- Two candidates lead to one file, and it is loaded under a path of its own for each, with a
server directory of its own. -/
theorem load_canonical_detour :
    detour.find "/a" = .ok ["a"] ∧ detour.find "/d/m" = .ok ["a"] ∧
    ∃ l l', (load detourSurroundings "a").result = .ok l ∧
      (load detourSurroundings "d/m").result = .ok l' ∧
      l.tree.toJson.at? ["path"] = some (.string "/a") ∧
      l.tree.toJson.at? ["server", "directory"] = some (.string "/") ∧
      l'.tree.toJson.at? ["path"] = some (.string "/d/m") ∧
      l'.tree.toJson.at? ["server", "directory"] = some (.string "/d") := by
  have hplain : Path.IsPlain ["a"] := by
    intro s hs
    rw [List.mem_singleton.1 hs]
    exact ⟨by decide, by decide, by decide, by decide⟩
  have ha : detour.find "/a" = .ok ["a"] := eq_ok_of_toOption (by decide +kernel)
  have hfile : NamesFile detour.access "/" "a" "/a" :=
    ⟨⟨"/a", eq_ok_of_toOption (by decide +kernel), .inl (eq_ok_of_toOption (by decide +kernel))⟩,
      eq_ok_of_toOption (by decide +kernel)⟩
  obtain ⟨l, hl, hpath, hdirectory⟩ :=
    load_detour hplain (by decide) ha hfile
  obtain ⟨l', hl', hpath', hdirectory'⟩ :=
    load_detour isPlain_detour (by decide) find_detour namesFile_detour
  exact ⟨ha, find_detour, l, l', hl, hl', hpath, hdirectory, hpath', hdirectory'⟩

end WakeConfig
