import WakeConfig.Files.Path
import WakeConfig.Proofs.Literals

/-!
# Places and their paths

The path of a place whose segments are names is read as that place from everywhere, so resolving a
path twice is resolving it once. What is above the path of a place is the path of the place above.
-/

namespace WakeConfig.Path

/-- A segment that leads to an entry of a directory. -/
structure IsName (segment : String) : Prop where
  nonempty : segment ≠ ""
  unsplit : '/' ∉ segment.toList
  dot : segment ≠ "."
  dotdot : segment ≠ ".."

/-- A segment: a name, or one of the two with a meaning of their own. -/
def IsSegment (segment : String) : Prop := segment ≠ "." → segment ≠ ".." → IsName segment

/-- A place whose segments are names. -/
def IsPlain (place : List String) : Prop := ∀ name ∈ place, IsName name

variable {here place : List String} {name : String}

theorem IsPlain.append (hh : IsPlain here) (hp : IsPlain place) : IsPlain (here ++ place) := by
  intro name h
  exact (List.mem_append.1 h).elim (hh name) (hp name)

theorem IsPlain.dropLast (h : IsPlain place) : IsPlain place.dropLast :=
  fun name hname => h name (List.dropLast_subset place hname)

/-! ## Segments -/

theorem not_mem_of_mem_splitOn {cs s : List Char} (h : s ∈ cs.splitOn '/') : '/' ∉ s := by
  induction cs generalizing s with
  | nil =>
    rw [List.splitOn_nil] at h
    rw [List.mem_singleton.1 h]
    exact List.not_mem_nil
  | cons c cs ih =>
    rw [List.splitOn_cons_eq_if_modifyHead] at h
    split at h
    · rcases List.mem_cons.1 h with rfl | h
      · exact List.not_mem_nil
      · exact ih h
    · rename_i hc
      obtain ⟨first, rest, hcs⟩ := List.exists_cons_of_ne_nil (List.splitOn_ne_nil '/' cs)
      rw [hcs, List.modifyHead_cons] at h
      rcases List.mem_cons.1 h with rfl | h
      · have hfirst : '/' ∉ first := ih (by rw [hcs]; exact List.mem_cons_self)
        simpa [eq_comm] using ⟨by simpa using hc, hfirst⟩
      · exact ih (by rw [hcs]; exact List.mem_cons_of_mem _ h)

theorem isSegment_of_mem_segments {p segment : String} (h : segment ∈ segments p) :
    IsSegment segment := by
  intro hdot hdotdot
  obtain ⟨s, hs, rfl⟩ := List.mem_map.1 h
  obtain ⟨hs, hnonempty⟩ := List.mem_filter.1 hs
  refine ⟨fun h => ?_, by rw [String.toList_ofList]; exact not_mem_of_mem_splitOn hs, hdot,
    hdotdot⟩
  have : s = [] := by simpa using congrArg String.toList h
  simp [this] at hnonempty

theorem toList_render (place : List String) :
    (render place).toList = '/' :: ['/'].intercalate (place.map String.toList) := by
  rw [render, String.toList_append, String.toList_intercalate]
  rfl

theorem isAbsolute_render (place : List String) : isAbsolute (render place) = true := by
  rw [isAbsolute, toList_render]
  rfl

/-- A slash in front of a path is no segment. -/
theorem segments_slash (s : List Char) :
    segments (String.ofList ('/' :: s)) = segments (String.ofList s) := by
  rw [segments, segments, String.toList_ofList, String.toList_ofList,
    List.splitOn_cons_eq_if_modifyHead, if_pos (by rfl), List.filter_cons_of_neg (by simp)]

theorem segments_slashes (n : Nat) (s : List Char) :
    segments (String.ofList (List.replicate n '/' ++ s)) = segments (String.ofList s) := by
  induction n with
  | zero => rfl
  | succ n ih => rw [List.replicate_succ, List.cons_append, segments_slash, ih]

/-- Texts that may stand between slashes: none is empty, and none has a slash. -/
def AreSegments (ss : List String) : Prop := ∀ s ∈ ss, s ≠ "" ∧ '/' ∉ s.toList

theorem IsPlain.areSegments (h : IsPlain place) : AreSegments place :=
  fun name hname => ⟨(h name hname).nonempty, (h name hname).unsplit⟩

/-- What stands between the slashes of the path of a place: nothing, and then its segments. -/
theorem splitOn_render (h : AreSegments place) (hne : place ≠ []) :
    (render place).toList.splitOn '/' = [] :: place.map String.toList := by
  have hsplit : (['/'].intercalate (place.map String.toList)).splitOn '/'
      = place.map String.toList := by
    refine List.splitOn_intercalate '/' (fun s hs => ?_) (by simpa using hne)
    obtain ⟨name, hname, rfl⟩ := List.mem_map.1 hs
    exact (h name hname).2
  rw [toList_render, List.splitOn_cons_eq_if_modifyHead, if_pos (by rfl), hsplit]

/-- The segments of the path of a place. -/
theorem segments_render (h : AreSegments place) : segments (render place) = place := by
  by_cases hne : place = []
  · rw [hne]
    rfl
  · have hkeep : (place.map String.toList).filter (fun s => !s.isEmpty)
        = place.map String.toList := by
      refine List.filter_eq_self.2 fun s hs => ?_
      obtain ⟨name, hname, rfl⟩ := List.mem_map.1 hs
      have := (h name hname).1
      simpa using this
    rw [segments, splitOn_render h hne, List.filter_cons_of_neg (by simp), hkeep, List.map_map]
    exact List.map_id'' (fun _ => String.ofList_toList) place

/-! ## Walking -/

theorem isPlain_step {segment : String} (hh : IsPlain here)
    (hs : IsSegment segment) : IsPlain (step here segment) := by
  unfold step
  split
  · exact hh
  · rename_i hdot
    split
    · exact hh.dropLast
    · rename_i hdotdot
      refine hh.append fun name hname => ?_
      rw [List.mem_singleton.1 hname]
      exact hs hdot hdotdot

theorem isPlain_walk {ss : List String} (hh : IsPlain here) (hss : ∀ s ∈ ss, IsSegment s) :
    IsPlain (walk here ss) := by
  induction ss generalizing here with
  | nil => exact hh
  | cons s ss ih =>
    exact ih (isPlain_step hh (hss s List.mem_cons_self))
      fun x hx => hss x (List.mem_cons_of_mem s hx)

/-- A path leads from a plain place to a plain place. -/
theorem isPlain_place (hh : IsPlain here) (p : String) : IsPlain (Path.place here p) := by
  refine isPlain_walk ?_ fun s hs => isSegment_of_mem_segments hs
  split
  · exact fun name hname => nomatch hname
  · exact hh

theorem walk_of_isPlain (here : List String) (h : IsPlain place) :
    walk here place = here ++ place := by
  induction place generalizing here with
  | nil => exact (List.append_nil here).symm
  | cons name place ih =>
    have hname := h name List.mem_cons_self
    show walk (step here name) place = _
    rw [step, if_neg hname.dot, if_neg hname.dotdot,
      ih _ fun x hx => h x (List.mem_cons_of_mem name hx), List.append_assoc]
    rfl

/-- The path of a place leads to that place from everywhere. -/
theorem place_render (here : List String) (h : IsPlain place) :
    Path.place here (render place) = place := by
  rw [Path.place, isAbsolute_render, if_pos rfl, segments_render h.areSegments,
    walk_of_isPlain [] h,
    List.nil_append]

theorem resolve_render (directory : String) (h : IsPlain place) :
    resolve directory (render place) = render place := by
  rw [resolve, place_render _ h]

/-! ## Characters -/

theorem toList_render_append (here : List String) (name : String) :
    (render (here ++ [name])).toList
      = (if here = [] then [] else (render here).toList) ++ '/' :: name.toList := by
  have hjoin : ∀ here : List String, here ≠ [] → ['/'].intercalate ((here ++ [name]).map
      String.toList) = ['/'].intercalate (here.map String.toList) ++ '/' :: name.toList := by
    intro here hne
    induction here with
    | nil => exact absurd rfl hne
    | cons first here ih =>
      by_cases hh : here = []
      · subst hh
        simp [List.intercalate_cons_cons, List.intercalate_singleton]
      · rw [List.cons_append, List.map_cons, List.intercalate_cons_of_ne_nil (by simp), ih hh,
          List.map_cons, List.intercalate_cons_of_ne_nil (by simpa using hh)]
        simp only [List.append_assoc]
  rw [toList_render]
  split
  · rename_i hh
    rw [hh, List.nil_append, List.map_singleton, List.intercalate_singleton, List.nil_append]
  · rename_i hh
    rw [hjoin here hh, toList_render]
    rfl

/-- The length of the path of a place is made up of its names and the slashes before them. -/
theorem size_render_append (here : List String) (name : String) :
    (render (here ++ [name])).utf8ByteSize
      = (if here = [] then 0 else (render here).utf8ByteSize) + (1 + name.utf8ByteSize) := by
  have hrender : render (here ++ [name])
      = (if here = [] then "" else render here) ++ "/" ++ name := by
    refine String.toList_inj.1 ?_
    rw [toList_render_append, String.toList_append, String.toList_append, List.append_assoc]
    split <;> rfl
  have hslash : "/".utf8ByteSize = 1 := by decide
  rw [hrender, String.utf8ByteSize_append, String.utf8ByteSize_append, hslash, Nat.add_assoc]
  split <;> rfl

theorem size_render_le (here : List String) (name : String) :
    (render here).utf8ByteSize ≤ (render (here ++ [name])).utf8ByteSize := by
  rw [size_render_append]
  split
  · rename_i hh
    have hroot : (render []).utf8ByteSize = 1 := by decide
    rw [hh, hroot]
    omega
  · omega

/-- What is above a path is what stands before its last segment. A slash alone is doubled. -/
theorem parent_append (before : List Char) {name : List Char} (hne : name ≠ []) (hname : '/' ∉ name)
    (n : Nat) :
    parent (String.ofList (before ++ '/' :: name ++ .replicate n '/'))
      = if before = [] then "/" else if before = ['/'] then "//" else String.ofList before := by
  have hplain : ∀ c ∈ name.reverse, c ≠ '/' := by
    rintro c hc rfl
    exact hname (List.mem_reverse.1 hc)
  have hslashes : ∀ c ∈ (List.replicate n '/').reverse, (c == '/') = true := by
    intro c hc
    rw [List.eq_of_mem_replicate (List.mem_reverse.1 hc)]
    rfl
  have htrim : (before ++ '/' :: name ++ .replicate n '/').reverse.dropWhile (· == '/')
      = name.reverse ++ '/' :: before.reverse := by
    obtain ⟨c, cs, hcs⟩ := List.exists_cons_of_ne_nil (List.reverse_ne_nil_iff.2 hne)
    have hc : c ≠ '/' := hplain c (by rw [hcs]; exact List.mem_cons_self)
    rw [List.reverse_append, List.dropWhile_append_of_pos hslashes, List.reverse_append,
      List.reverse_cons, List.append_assoc, List.singleton_append, hcs, List.cons_append,
      List.dropWhile_cons_of_neg (by simpa using hc)]
  have hdrop : (name.reverse ++ '/' :: before.reverse).dropWhile (· != '/')
      = '/' :: before.reverse := by
    rw [List.dropWhile_append_of_pos fun c hc => by simpa using hplain c hc]
    rfl
  unfold parent
  dsimp only
  rw [String.toList_ofList, htrim, hdrop]
  by_cases hbefore : before = []
  · rw [if_pos hbefore, hbefore]
    rfl
  · rw [if_neg hbefore]
    split
    · exact absurd ‹_› (List.cons_ne_nil _ _)
    · rename_i h
      exact absurd (List.reverse_eq_nil_iff.1 (List.cons.inj h).2) hbefore
    · rename_i h
      have hslash : before = ['/'] := by
        rw [← List.reverse_reverse before, (List.cons.inj h).2]
        rfl
      rw [if_pos hslash]
    · rename_i hnot h
      obtain ⟨-, rfl⟩ := List.cons.inj h
      have hslash : before ≠ ['/'] := fun h => hnot (by rw [h]; rfl)
      rw [if_neg hslash, List.reverse_reverse]

/-- What is above the path of a place is the path of the place above. -/
theorem parent_render (hhere : IsPlain here) (hname : IsName name) :
    parent (render (here ++ [name])) = render here := by
  have hne : name.toList ≠ [] := by simpa using hname.nonempty
  have hparent := parent_append (if here = [] then [] else (render here).toList) hne
    hname.unsplit 0
  rw [List.replicate_zero, List.append_nil, ← toList_render_append, String.ofList_toList] at hparent
  rw [hparent]
  by_cases hh : here = []
  · rw [if_pos hh, if_pos rfl, hh]
    rfl
  · have hrender : (render here).toList ≠ [] := by
      rw [toList_render]
      exact List.cons_ne_nil _ _
    have hroot : (render here).toList ≠ ['/'] := by
      intro h
      rw [← segments_render hhere.areSegments, ← String.ofList_toList (s := render here), h] at hh
      exact hh rfl
    rw [if_neg hh, if_neg hrender, if_neg hroot, String.ofList_toList]

/-- The directory of a server is taken from the place above that of its file. -/
theorem serverDirectory_render (workingDirectory directory : String) (hh : IsPlain here)
    (hname : IsName name) :
    serverDirectory workingDirectory directory (some (render (here ++ [name])))
      = render (Path.place here directory) := by
  rw [serverDirectory, parent_render hh hname, place_render _ hh]

end WakeConfig.Path
