import Mathlib.Data.List.Induction
import WakeConfig.Proofs.Paths

/-!
# The directory of the server

Where a declared directory leads. `LeadsTo` says it segment by segment, and `segments_parent` what
is above a path, as text. `serverDirectory_exact` puts them together: the directory of the server is
the path of the place that its segments lead to, in a form in which nothing is left to resolve.
-/

namespace WakeConfig.Path

/-! ## Leading from place to place -/

/-- Segments, taken as text, lead from a place to a place: `..` goes to the place above, and stays
at the root. -/
inductive LeadsTo : List String → List String → List String → Prop
  | done {here : List String} : LeadsTo here [] here
  | stay {here ss place : List String} : LeadsTo here ss place → LeadsTo here ("." :: ss) place
  | atRoot {ss place : List String} : LeadsTo [] ss place → LeadsTo [] (".." :: ss) place
  | up {here ss place : List String} {name : String} :
      LeadsTo here ss place → LeadsTo (here ++ [name]) (".." :: ss) place
  | down {here ss place : List String} {segment : String} : segment ≠ "." → segment ≠ ".." →
      LeadsTo (here ++ [segment]) ss place → LeadsTo here (segment :: ss) place

variable {here place ss : List String} {before name : List Char} {p : String}

theorem LeadsTo.walk_eq (h : LeadsTo here ss place) : walk here ss = place := by
  induction h with
  | done => rfl
  | stay _ ih => exact ih
  | atRoot _ ih => exact ih
  | @up here ss place name _ ih =>
    show walk (here ++ [name]).dropLast ss = place
    rw [List.dropLast_concat, ih]
  | @down here ss place segment hdot hdotdot _ ih =>
    show walk (step here segment) ss = place
    rw [step, if_neg hdot, if_neg hdotdot, ih]

theorem leadsTo_walk (here ss : List String) : LeadsTo here ss (walk here ss) := by
  induction ss generalizing here with
  | nil => exact .done
  | cons s ss ih =>
    show LeadsTo here (s :: ss) (walk (step here s) ss)
    by_cases hdot : s = "."
    · subst hdot
      exact .stay (ih here)
    · by_cases hdotdot : s = ".."
      · subst hdotdot
        rcases here.eq_nil_or_concat with rfl | ⟨above, name, rfl⟩
        · exact .atRoot (ih [])
        · have hstep : step (above ++ [name]) ".." = above := List.dropLast_concat
          rw [List.concat_eq_append, hstep]
          exact .up (ih above)
      · have hstep : step here s = here ++ [s] := by rw [step, if_neg hdot, if_neg hdotdot]
        rw [hstep]
        exact .down hdot hdotdot (ih _)

/-- Segments lead to one place. -/
theorem leadsTo_iff : LeadsTo here ss place ↔ walk here ss = place := by
  constructor
  · exact LeadsTo.walk_eq
  · rintro rfl
    exact leadsTo_walk here ss

/-! ## Above a path -/

theorem splitOn_append_slash (s t : List Char) :
    (s ++ '/' :: t).splitOn '/' = s.splitOn '/' ++ t.splitOn '/' :=
  List.splitOnP_append_cons s t (by decide)

theorem segments_append_slash (s t : List Char) :
    segments (String.ofList (s ++ '/' :: t))
      = segments (String.ofList s) ++ segments (String.ofList t) := by
  simp only [segments, String.toList_ofList, splitOn_append_slash, List.filter_append,
    List.map_append]

theorem segments_nil : segments (String.ofList []) = [] := rfl

/-- Slashes at the end of a path make no segment. -/
theorem segments_append_slashes (s : List Char) (n : Nat) :
    segments (String.ofList (s ++ .replicate n '/')) = segments (String.ofList s) := by
  cases n with
  | zero => rw [List.replicate_zero, List.append_nil]
  | succ n =>
    have hslashes := segments_slashes n []
    rw [List.append_nil] at hslashes
    rw [List.replicate_succ, segments_append_slash, hslashes, segments_nil, List.append_nil]

theorem segments_of_not_mem (hne : name ≠ []) (hname : '/' ∉ name) :
    segments (String.ofList name) = [String.ofList name] := by
  rw [segments, String.toList_ofList, List.splitOn_eq_singleton hname,
    List.filter_cons_of_pos (by simpa using hne)]
  rfl

/-- A path that begins with a slash is nothing but slashes, or it has a last segment. -/
theorem slashes_or_last_segment (s : List Char) : (∃ n, '/' :: s = .replicate (n + 1) '/') ∨
    ∃ before name n, '/' :: s = before ++ '/' :: name ++ .replicate n '/' ∧
      name ≠ [] ∧ '/' ∉ name := by
  induction s using List.reverseRecOn with
  | nil => exact .inl ⟨0, rfl⟩
  | append_singleton s c ih =>
    rw [← List.cons_append]
    by_cases hc : c = '/'
    · subst hc
      rcases ih with ⟨n, hn⟩ | ⟨before, name, n, hs, hname⟩
      · exact .inl ⟨n + 1, by rw [hn, ← List.replicate_succ']⟩
      · refine .inr ⟨before, name, n + 1, ?_, hname⟩
        rw [hs, List.append_assoc, ← List.replicate_succ']
    · have hlast : '/' ∉ [c] := by simpa [eq_comm] using hc
      rcases ih with ⟨n, hn⟩ | ⟨before, name, n, hs, hne, hname⟩
      · refine .inr ⟨.replicate n '/', [c], 0, ?_, List.cons_ne_nil c [], hlast⟩
        rw [hn, List.replicate_succ']
        simp
      · cases n with
        | zero =>
          refine .inr ⟨before, name ++ [c], 0, by simp [hs], by simp, ?_⟩
          simpa using ⟨hname, Ne.symm hc⟩
        | succ n =>
          refine .inr ⟨before ++ '/' :: name ++ .replicate n '/', [c], 0, ?_,
            List.cons_ne_nil c [], hlast⟩
          rw [hs, List.replicate_succ']
          simp

theorem parent_slashes (n : Nat) : parent (String.ofList (.replicate (n + 1) '/')) = "/" := by
  have htrim : (List.replicate (n + 1) '/').reverse.dropWhile (· == '/') = [] := by
    rw [List.reverse_replicate, List.dropWhile_replicate]
    rfl
  unfold parent
  dsimp only
  rw [isAbsolute, String.toList_ofList, htrim]
  rfl

/-- What is above an absolute path is absolute, and has the segments in front of the last. -/
theorem segments_parent (h : isAbsolute p = true) :
    isAbsolute (parent p) = true ∧ segments (parent p) = (segments p).dropLast := by
  obtain ⟨s, hs⟩ : ∃ s, p.toList = '/' :: s := by
    exact List.head?_eq_some_iff.1 (by simpa [isAbsolute] using h)
  rw [← String.ofList_toList (s := p), hs]
  rcases slashes_or_last_segment s with ⟨n, hn⟩ | ⟨before, name, n, hp, hne, hname⟩
  · have hslashes := segments_append_slashes [] (n + 1)
    rw [List.nil_append] at hslashes
    rw [hn, parent_slashes, hslashes]
    exact ⟨rfl, rfl⟩
  · rw [hp, parent_append before hne hname, segments_append_slashes, segments_append_slash,
      segments_of_not_mem hne hname, List.dropLast_concat]
    cases before with
    | nil => exact ⟨rfl, rfl⟩
    | cons c cs =>
      obtain rfl : '/' = c := (List.cons.inj hp).1
      rw [if_neg (List.cons_ne_nil _ _)]
      split
      · rename_i hroot
        obtain rfl := (List.cons.inj hroot).2
        exact ⟨rfl, rfl⟩
      · exact ⟨by rw [isAbsolute, String.toList_ofList]; rfl, rfl⟩

/-! ## Paths with nothing left to resolve -/

/-- An absolute path without an empty segment, without `.` and `..`, and without a slash at the
end, unless it is the root. -/
structure IsNormal (p : String) : Prop where
  absolute : isAbsolute p = true
  segment : p ≠ "/" → ∀ s ∈ (p.toList.splitOn '/').tail, s ≠ [] ∧ s ≠ ['.'] ∧ s ≠ ['.', '.']
  ending : p ≠ "/" → p.toList.getLast? ≠ some '/'

theorem isNormal_render (h : IsPlain place) : IsNormal (render place) := by
  have hsegment : render place ≠ "/" → ∀ s ∈ ((render place).toList.splitOn '/').tail,
      s ≠ [] ∧ s ≠ ['.'] ∧ s ≠ ['.', '.'] := by
    intro hroot s hs
    have hne : place ≠ [] := by
      rintro rfl
      exact hroot rfl
    rw [splitOn_render h.areSegments hne, List.tail_cons] at hs
    obtain ⟨name, hname, rfl⟩ := List.mem_map.1 hs
    obtain ⟨hempty, -, hdot, hdotdot⟩ := h name hname
    exact ⟨fun he => hempty (String.toList_inj.1 he), fun he => hdot (String.toList_inj.1 he),
      fun he => hdotdot (String.toList_inj.1 he)⟩
  refine ⟨isAbsolute_render place, hsegment, fun hroot hlast => ?_⟩
  -- a slash at the end would leave an empty segment behind it
  obtain ⟨s, hs⟩ := List.getLast?_eq_some_iff.1 hlast
  refine (hsegment hroot [] ?_).1 rfl
  rw [hs, splitOn_append_slash, List.splitOn_nil,
    List.tail_append_of_ne_nil (List.splitOn_ne_nil _ _)]
  exact List.mem_append_right _ List.mem_cons_self

/-! ## The directory -/

/-- The place from which the segments of a declared directory lead on: the root, or where the file
is. -/
def startOf (directory file : String) : List String :=
  if isAbsolute directory then [] else walk [] (segments (parent file))

theorem isPlain_nil : IsPlain [] := fun _ h => nomatch h

theorem isPlain_startOf (directory file : String) : IsPlain (startOf directory file) := by
  unfold startOf
  split
  · exact isPlain_nil
  · exact isPlain_walk isPlain_nil fun _ hs => isSegment_of_mem_segments hs

theorem serverDirectory_eq (workingDirectory directory : String) (h : isAbsolute p = true) :
    serverDirectory workingDirectory directory (some p)
      = render (walk (startOf directory p) (segments directory)) := by
  have hparent : Path.place (Path.place [] workingDirectory) (parent p)
      = walk [] (segments (parent p)) := by
    rw [Path.place, if_pos (segments_parent h).1]
  rw [serverDirectory, hparent]
  rfl

/-- The directory of a place stays where it is, whatever file it is declared in. -/
theorem serverDirectory_of_isPlain (workingDirectory : String) (h : IsPlain place)
    (file? : Option String) :
    serverDirectory workingDirectory (render place) file? = render place := by
  cases file? with
  | none => rfl
  | some file => rw [serverDirectory, place_render _ h]

/-- **The directory of the server.** A directory that is declared in no file stays as it is. One
that is declared in a file with an absolute path becomes an absolute path in which nothing is left
to resolve: that of the place to which its segments lead, from the root if the directory is
absolute, and else from the place to which the segments of the file lead without the last. The file
makes no difference if the directory is absolute, and the working directory never does. Resolved
again, from anywhere and against any file, the path stays the same. -/
theorem serverDirectory_exact (workingDirectory directory : String) :
    serverDirectory workingDirectory directory none = directory ∧
    ∀ file, isAbsolute file = true →
      (isAbsolute (parent file) = true ∧ segments (parent file) = (segments file).dropLast) ∧
      ∃ resolved, serverDirectory workingDirectory directory (some file) = resolved ∧
        IsNormal resolved ∧
        (∃ here place, LeadsTo here (segments directory) place ∧ resolved = render place ∧
          (isAbsolute directory = true → here = []) ∧
          (isAbsolute directory = false → LeadsTo [] (segments (parent file)) here)) ∧
        (isAbsolute directory = true →
          ∀ file', serverDirectory workingDirectory directory (some file') = resolved) ∧
        (∀ workingDirectory',
          serverDirectory workingDirectory' directory (some file) = resolved) ∧
        ∀ workingDirectory' file?,
          serverDirectory workingDirectory' resolved file? = resolved := by
  refine ⟨rfl, fun file hfile => ⟨segments_parent hfile, _,
    serverDirectory_eq workingDirectory directory hfile, ?_⟩⟩
  have hplain : IsPlain (walk (startOf directory file) (segments directory)) :=
    isPlain_walk (isPlain_startOf directory file) fun _ hs => isSegment_of_mem_segments hs
  refine ⟨isNormal_render hplain, ⟨startOf directory file, _, leadsTo_iff.2 rfl, rfl, ?_, ?_⟩, ?_,
    fun workingDirectory' => serverDirectory_eq workingDirectory' directory hfile,
    fun workingDirectory' => serverDirectory_of_isPlain workingDirectory' hplain⟩
  · exact fun h => if_pos h
  · intro h
    rw [startOf, if_neg (by rw [h]; exact Bool.false_ne_true)]
    exact leadsTo_iff.2 rfl
  · intro h file'
    rw [serverDirectory, place_of_isAbsolute h _ [], Path.place, startOf, if_pos h, if_pos h]

/-- A relative directory that goes above the root, and an absolute one. -/
theorem serverDirectory_exact_aboveRoot :
    isAbsolute "/srv/mc/../lazymc.toml/" = true ∧ isAbsolute "../../world/./" = false ∧
      isAbsolute "/world//" = true ∧
    (∃ here place, LeadsTo [] ["srv", "mc", ".."] here ∧
      LeadsTo here ["..", "..", "world", "."] place ∧ render place = "/world" ∧
      serverDirectory "/tmp" "../../world/./" (some "/srv/mc/../lazymc.toml/") = render place ∧
      IsNormal (render place)) ∧
    serverDirectory "/tmp" "/world//" (some "lazymc.toml")
      = serverDirectory "/tmp" "/world//" (some "/srv/mc/../lazymc.toml/") := by
  have hfile : isAbsolute "/srv/mc/../lazymc.toml/" = true := by decide
  have hrelative : isAbsolute "../../world/./" = false := by decide
  have habsolute : isAbsolute "/world//" = true := by decide
  obtain ⟨⟨-, habove⟩, resolved, hresolved, hnormal, hleads, -⟩ :=
    (serverDirectory_exact "/tmp" "../../world/./").2 _ hfile
  obtain ⟨here, place, hplace, rfl, -, hhere⟩ := hleads
  have hsegments : segments (parent "/srv/mc/../lazymc.toml/") = ["srv", "mc", ".."] := by
    rw [habove]
    decide
  obtain ⟨-, resolved', hresolved', -, -, hsame, -⟩ :=
    (serverDirectory_exact "/tmp" "/world//").2 _ hfile
  refine ⟨hfile, hrelative, habsolute, ⟨here, place, ?_, hplace, ?_, hresolved, hnormal⟩, ?_⟩
  · rw [← hsegments]
    exact hhere hrelative
  · rw [← hresolved]
    decide
  · rw [hsame habsolute, hresolved']

end WakeConfig.Path
