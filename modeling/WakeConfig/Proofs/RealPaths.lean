import WakeConfig.Proofs.Following

/-!
# Finding canonical paths

The canonical path of a path is found by asking about one entry on the way after the other, each by
its own path. So it is the path of the place to which the names lead, if none of these paths is too
long (`ShortWay`), and otherwise it is not found, wherever the names lead: `Leads.real` and
`real_names_eq_ok_iff`.
-/

namespace WakeConfig.FileTree

variable {t : FileTree} {here there place ns xs ys rest front : List String} {name p : String}
  {k n links : Nat}

/-! ## Short ways -/

/-- The path by which a name on the way is asked for is not too long. It has a slash at the end
where the name is no link and has to be that of a directory. -/
def IsAskable (here : List String) (name : String) (k : Nat) (rest : List String) : Prop :=
  name ≠ "." → name ≠ ".." → (Path.render (here ++ [name])).utf8ByteSize
    + (if k = 0 ∧ askDirectory rest = true then 1 else 0) < maxPath

/-- None of the paths by which the names on the way are asked for is too long. Each is that of the
place so far with the next name. -/
inductive ShortWay (t : FileTree) : List String → List String → Prop
  | done {here : List String} : ShortWay t here []
  | step {here there front rest : List String} {name : String} {k : Nat} :
      t.Step here name k there front → IsAskable here name k rest →
      ShortWay t there (front ++ rest) → ShortWay t here (name :: rest)

theorem Step.shortWay_cons (h : t.Step here name k there front) :
    t.ShortWay here (name :: rest) ↔
      IsAskable here name k rest ∧ t.ShortWay there (front ++ rest) := by
  constructor
  · intro hway
    cases hway with
    | step h' hask hrest =>
      obtain ⟨rfl, rfl, rfl⟩ := h.unique h'
      exact ⟨hask, hrest⟩
  · rintro ⟨hask, hrest⟩
    exact .step h hask hrest

/-- Behind what has to be a directory there are names. -/
theorem ne_nil_of_askDirectory (h : askDirectory ns = true) : ns ≠ [] := by
  rintro rfl
  cases h

/-- Names that lead somewhere are followed from a directory, if there are any. -/
theorem Leads.directory (h : t.Leads n here ns place) (hns : ns ≠ []) :
    t.entryAt here = some .directory := by
  cases h with
  | done => exact absurd rfl hns
  | step hdirectory _ _ => exact hdirectory

/-! ## The algorithm -/

theorem real_nil (t : FileTree) (links : Nat) (here : List String) :
    t.real links here [] = .ok here := by
  cases links <;> rfl

theorem real_cons (t : FileTree) (links : Nat) (here : List String) (name : String)
    (rest : List String) :
    t.real links here (name :: rest) =
      if name = "." then t.real links here rest
      else if name = ".." then t.real links here.dropLast rest
      else
        let size := (Path.render (here ++ [name])).utf8ByteSize
        if maxPath ≤ size then .error .nameTooLong
        else
          match t.look here name with
          | .ok (.link target) =>
            match links with
            | 0 => .error .linkLoop
            | links + 1 => t.real links (if Path.isAbsolute target then [] else here)
                (names target ++ rest)
          | found =>
            if askDirectory rest then
              if maxPath ≤ size + 1 then .error .nameTooLong
              else
                match found with
                | .ok .directory => t.real links (here ++ [name]) rest
                | .ok _ => .error .notDirectory
                | .error fault => .error fault
            else
              match found with
              | .ok _ => t.real links (here ++ [name]) rest
              | .error fault => .error fault := by
  cases links <;> rfl

theorem look_eq_ok_iff {e : Entry} : t.look here name = .ok e ↔
    t.entryAt here = some .directory ∧ name.utf8ByteSize ≤ maxName ∧
      t.entryAt (here ++ [name]) = some e := by
  unfold look
  constructor
  · intro h
    split at h
    · rename_i hdirectory
      split at h
      · cases h
      · rename_i hsize
        split at h
        · cases h
        · rename_i e' he
          cases h
          exact ⟨hdirectory, Nat.le_of_not_lt hsize, he⟩
    · cases h
  · rintro ⟨hdirectory, hsize, he⟩
    simp only [hdirectory, Nat.not_lt.2 hsize, he, if_false]

section Answers

variable (hdot : name ≠ ".") (hdotdot : name ≠ "..")

include hdot hdotdot

/-- Where a name is that of an entry other than a link, the rest is found from there, unless a path
is too long or the rest needs a directory there. -/
theorem real_of_entry {e : Entry} (hlook : t.look here name = .ok e)
    (hlink : ∀ target, e ≠ .link target) :
    t.real links here (name :: rest) =
      if maxPath ≤ (Path.render (here ++ [name])).utf8ByteSize
          + (if askDirectory rest = true then 1 else 0) then .error .nameTooLong
      else if askDirectory rest = true ∧ e ≠ .directory then .error .notDirectory
      else t.real links (here ++ [name]) rest := by
  rw [real_cons]
  simp only [if_neg hdot, if_neg hdotdot, hlook]
  cases hneeded : askDirectory rest with
  | true =>
    simp only [if_true, true_and]
    by_cases hsize : maxPath ≤ (Path.render (here ++ [name])).utf8ByteSize
    · rw [if_pos hsize, if_pos (Nat.le_succ_of_le hsize)]
    · rw [if_neg hsize]
      cases e with
      | link target => exact absurd rfl (hlink target)
      | _ => simp
  | false =>
    simp only [Bool.false_eq_true, if_false, false_and, Nat.add_zero]
    cases e with
    | link target => exact absurd rfl (hlink target)
    | _ => rfl

/-- Where a name is that of a link, what it stands for and the rest are found, unless its path is
too long or no link is left to be followed. -/
theorem real_of_link {target : String} (hlook : t.look here name = .ok (.link target)) :
    t.real links here (name :: rest) =
      if maxPath ≤ (Path.render (here ++ [name])).utf8ByteSize then .error .nameTooLong
      else
        match links with
        | 0 => .error .linkLoop
        | left + 1 => t.real left (if Path.isAbsolute target then [] else here)
            (names target ++ rest) := by
  rw [real_cons]
  simp only [if_neg hdot, if_neg hdotdot, hlook]

/-- Where there is no entry of a name, nothing is found. -/
theorem exists_error_of_look {fault : FileFault} (hlook : t.look here name = .error fault) :
    ∃ fault', t.real links here (name :: rest) = .error fault' := by
  rw [real_cons]
  simp only [if_neg hdot, if_neg hdotdot, hlook]
  repeat' split
  all_goals exact ⟨_, rfl⟩

end Answers

/-- A name that leads on is followed where the path to ask for it is not too long. -/
theorem Step.real_of_isAskable (h : t.Step here name k there front)
    (hdirectory : t.entryAt here = some .directory)
    (hthere : askDirectory rest = true → front = [] → t.entryAt there = some .directory)
    (hask : IsAskable here name k rest) :
    t.real (k + links) here (name :: rest) = t.real links there (front ++ rest) := by
  cases h with
  | stay hname => simp [real_cons, hname]
  | up hname => simp [real_cons, hname]
  | @entry e hdot hdotdot hsize he hlink =>
    have hshort := hask hdot hdotdot
    simp only [true_and] at hshort
    have hneeded : ¬ (askDirectory rest = true ∧ e ≠ .directory) := fun h =>
      h.2 (Option.some.inj (he.symm.trans (hthere h.1 rfl)))
    rw [real_of_entry hdot hdotdot (look_eq_ok_iff.2 ⟨hdirectory, hsize, he⟩) hlink,
      if_neg (Nat.not_le.2 hshort), if_neg hneeded, Nat.zero_add, List.nil_append]
  | @link target hdot hdotdot hsize he =>
    have hshort := hask hdot hdotdot
    rw [if_neg (by omega), Nat.add_zero] at hshort
    rw [real_of_link hdot hdotdot (look_eq_ok_iff.2 ⟨hdirectory, hsize, he⟩),
      if_neg (Nat.not_le.2 hshort), Nat.add_comm 1]

/-- A path that is too long is refused. -/
theorem Step.real_of_not_isAskable (h : t.Step here name k there front)
    (hdirectory : t.entryAt here = some .directory) (hask : ¬ IsAskable here name k rest) :
    t.real links here (name :: rest) = .error .nameTooLong := by
  obtain ⟨hdot, hask⟩ := Classical.not_imp.1 hask
  obtain ⟨hdotdot, hlong⟩ := Classical.not_imp.1 hask
  cases h with
  | stay hname => exact absurd hname hdot
  | up hname => exact absurd hname hdotdot
  | entry _ _ hsize he hlink =>
    simp only [true_and] at hlong
    rw [real_of_entry hdot hdotdot (look_eq_ok_iff.2 ⟨hdirectory, hsize, he⟩) hlink,
      if_pos (Nat.le_of_not_lt hlong)]
  | link _ _ hsize he =>
    rw [if_neg (by omega), Nat.add_zero] at hlong
    rw [real_of_link hdot hdotdot (look_eq_ok_iff.2 ⟨hdirectory, hsize, he⟩),
      if_pos (Nat.le_of_not_lt hlong)]

/-- Where names lead is found on a short way, and on any other it is not, because a path is too
long. -/
theorem Leads.real (h : t.Leads n here ns place) (hn : n ≤ links) :
    t.real links here ns = .ok place ∧ t.ShortWay here ns ∨
      t.real links here ns = .error .nameTooLong ∧ ¬ t.ShortWay here ns := by
  induction h generalizing links with
  | done => exact .inl ⟨real_nil t links _, .done⟩
  | @step here there front rest place name k n hdirectory hstep hleads ih =>
    rw [hstep.shortWay_cons]
    by_cases hask : IsAskable here name k rest
    · have hthere : askDirectory rest = true → front = [] →
          t.entryAt there = some .directory := fun hneeded hfront =>
        hleads.directory (by rw [hfront]; exact ne_nil_of_askDirectory hneeded)
      obtain ⟨left, rfl⟩ := Nat.exists_eq_add_of_le (Nat.le_trans (Nat.le_add_right k n) hn)
      rw [hstep.real_of_isAskable hdirectory hthere hask]
      simpa only [hask, true_and] using ih (Nat.le_of_add_le_add_left hn)
    · exact .inr ⟨hstep.real_of_not_isAskable hdirectory hask, fun h => hask h.1⟩

/-! ## What is found -/

/-- A name that is found is that of an entry: a link, behind which what it stands for is found, or
anything else, which is a directory where it has to be. -/
theorem exists_look_of_real (hdot : name ≠ ".") (hdotdot : name ≠ "..")
    (h : t.real links here (name :: rest) = .ok place) : ∃ e, t.look here name = .ok e ∧
      ((∃ target left, e = .link target ∧ links = left + 1 ∧
        t.real left (if Path.isAbsolute target then [] else here) (names target ++ rest)
          = .ok place) ∨
      ((∀ target, e ≠ .link target) ∧ (e = .directory ∨ askDirectory rest = false) ∧
        t.real links (here ++ [name]) rest = .ok place)) := by
  cases hlook : t.look here name with
  | error fault =>
    obtain ⟨fault', herror⟩ := exists_error_of_look hdot hdotdot hlook
    cases herror.symm.trans h
  | ok e =>
    refine ⟨e, rfl, ?_⟩
    by_cases hlink : ∃ target, e = .link target
    · obtain ⟨target, rfl⟩ := hlink
      rw [real_of_link hdot hdotdot hlook] at h
      split at h
      · cases h
      · cases links with
        | zero => cases h
        | succ left => exact .inl ⟨target, left, rfl, rfl, h⟩
    · have hlink : ∀ target, e ≠ .link target := fun target h => hlink ⟨target, h⟩
      rw [real_of_entry hdot hdotdot hlook hlink] at h
      generalize (if askDirectory rest = true then 1 else 0) = slash at h
      split at h
      · cases h
      · split at h
        · cases h
        · rename_i hneeded
          refine .inr ⟨hlink, ?_, h⟩
          rcases Decidable.not_and_iff_or_not.1 hneeded with hnot | hnot
          · exact .inr (Bool.eq_false_iff.2 hnot)
          · exact .inl (Decidable.not_not.1 hnot)

theorem askDirectory_stay (h : rest ≠ []) : askDirectory ("." :: rest) = askDirectory rest := by
  have hdrop : ("." :: rest).dropWhile (· == ".") = rest.dropWhile (· == ".") := rfl
  unfold askDirectory
  rw [hdrop]
  cases hrest : rest.dropWhile (· == ".") with
  | nil => simp [h]
  | cons name ns => rfl

/-- What names are found from is a directory: it had to be one, or the first of them was found in
it. -/
theorem directory_of_real (hns : ns ≠ [])
    (hhere : t.entryAt here = some .directory ∨ askDirectory ns = false)
    (h : t.real links here ns = .ok place) : t.entryAt here = some .directory := by
  induction ns with
  | nil => exact absurd rfl hns
  | cons name rest ih =>
    refine hhere.elim id fun hneeded => ?_
    by_cases hdot : name = "."
    · subst hdot
      have hrest : rest ≠ [] := by
        rintro rfl
        cases hneeded
      rw [real_cons, if_pos rfl] at h
      exact ih hrest (.inr (askDirectory_stay hrest ▸ hneeded)) h
    by_cases hdotdot : name = ".."
    · subst hdotdot
      cases hneeded
    · obtain ⟨e, hlook, -⟩ := exists_look_of_real hdot hdotdot h
      exact (look_eq_ok_iff.1 hlook).1

/-- What is found is where the names lead. -/
theorem exists_leads_of_real (hh : t.Stands here) (hns : ∀ x ∈ ns, Path.IsSegment x)
    (hhere : t.entryAt here = some .directory ∨ askDirectory ns = false)
    (h : t.real links here ns = .ok place) : ∃ n, n ≤ links ∧ t.Leads n here ns place := by
  induction links using Nat.strongRecOn generalizing here ns with
  | ind links ihLinks =>
    induction ns generalizing here with
    | nil =>
      rw [real_nil] at h
      cases h
      exact ⟨0, Nat.zero_le links, .done⟩
    | cons name rest ih =>
      have hdirectory := directory_of_real (List.cons_ne_nil name rest) hhere h
      have hrest : ∀ x ∈ rest, Path.IsSegment x := fun x hx => hns x (List.mem_cons_of_mem name hx)
      by_cases hdot : name = "."
      · rw [real_cons, if_pos hdot] at h
        obtain ⟨n, hn, hleads⟩ := ih hh hrest (.inl hdirectory) h
        exact ⟨0 + n, by omega, .step hdirectory (.stay hdot) hleads⟩
      by_cases hdotdot : name = ".."
      · rw [real_cons, if_neg hdot, if_pos hdotdot] at h
        obtain ⟨n, hn, hleads⟩ := ih hh.dropLast hrest (.inl hh.entryAt_dropLast) h
        exact ⟨0 + n, by omega, .step hdirectory (.up hdotdot) hleads⟩
      obtain ⟨e, hlook, hfound⟩ := exists_look_of_real hdot hdotdot h
      obtain ⟨-, hsize, he⟩ := look_eq_ok_iff.1 hlook
      rcases hfound with ⟨target, left, rfl, rfl, hreal⟩ | ⟨hlink, hneeded, hreal⟩
      · have hstep : t.Step here name 1 _ (names target) := .link hdot hdotdot hsize he
        obtain ⟨hthere, hfront⟩ := hstep.stands hh hdirectory (hns name List.mem_cons_self)
        have hstart : t.entryAt (if Path.isAbsolute target then [] else here)
            = some .directory := by
          split
          · rfl
          · exact hdirectory
        obtain ⟨n, hn, hleads⟩ := ihLinks left (Nat.lt_succ_self left) hthere
          (fun x hx => (List.mem_append.1 hx).elim (hfront x) (hrest x)) (.inl hstart) hreal
        exact ⟨1 + n, by omega, .step hdirectory hstep hleads⟩
      · have hstep : t.Step here name 0 (here ++ [name]) [] := .entry hdot hdotdot hsize he hlink
        have hthere := (hstep.stands hh hdirectory (hns name List.mem_cons_self)).1
        obtain ⟨n, hn, hleads⟩ := ih hthere hrest (hneeded.imp_left (he.trans <| congrArg some ·))
          hreal
        exact ⟨0 + n, by omega, .step hdirectory hstep hleads⟩

/-- The canonical path of a path is that of the place to which it leads, if it leads there on a
short way. -/
theorem real_names_eq_ok_iff : t.real maxLinks [] (names p) = .ok place ↔
    t.find p = .ok place ∧ t.ShortWay [] (names p) := by
  constructor
  · intro h
    obtain ⟨n, hn, hleads⟩ := exists_leads_of_real .root (fun x hx => isSegment_of_mem_names hx)
      (.inl rfl) h
    refine ⟨find_eq_ok_iff.2 ⟨n, hn, hleads⟩, ?_⟩
    rcases hleads.real hn with ⟨-, hway⟩ | ⟨herror, -⟩
    · exact hway
    · cases herror.symm.trans h
  · rintro ⟨hfind, hway⟩
    obtain ⟨n, hn, hleads⟩ := find_eq_ok_iff.1 hfind
    exact (hleads.real hn).elim And.left fun h => absurd hway h.2

theorem real_names_of_not_shortWay (h : t.find p = .ok place) (hway : ¬ t.ShortWay [] (names p)) :
    t.real maxLinks [] (names p) = .error .nameTooLong := by
  obtain ⟨n, hn, hleads⟩ := find_eq_ok_iff.1 h
  exact (hleads.real hn).elim (fun h => absurd h.2 hway) And.left

/-! ## Short paths -/

theorem shortWay_stay : t.ShortWay here ("." :: rest) ↔ t.ShortWay here rest :=
  (Step.stay rfl).shortWay_cons.trans (and_iff_right fun hdot => absurd rfl hdot)

/-- The way of the path of some names is that of the names. -/
theorem shortWay_names_render (h : Path.AreSegments ns) :
    t.ShortWay [] (names (Path.render ns)) ↔ t.ShortWay [] ns := by
  rcases List.eq_nil_or_concat ns with rfl | ⟨above, name, rfl⟩
  · exact shortWay_stay
  · rw [List.concat_eq_append] at h ⊢
    rw [names_render h]

theorem askDirectory_of_isPlain (h : Path.IsPlain ns) : askDirectory ns = false := by
  cases ns with
  | nil => rfl
  | cons name rest =>
    have hname := h name List.mem_cons_self
    have hdot : (name == ".") = false := beq_eq_false_iff_ne.2 hname.dot
    have hdotdot : (name == "..") = false := beq_eq_false_iff_ne.2 hname.dotdot
    simp only [askDirectory, List.dropWhile_cons, hdot, Bool.false_eq_true, if_false, hdotdot]

/-- The way to a place without links is short if the path of the place is. -/
theorem Stands.shortWay_append (h : t.Stands place)
    (hsize : (Path.render place).utf8ByteSize < maxPath) (hns : Path.IsPlain ns)
    (hway : t.ShortWay place ns) : t.ShortWay [] (place ++ ns) := by
  induction h generalizing ns with
  | root => exact hway
  | @entry here name e hh hdirectory hname hlength he hlink ih =>
    rw [List.append_assoc]
    have hplain : Path.IsPlain ([name] ++ ns) := by
      refine Path.IsPlain.append (fun x hx => ?_) hns
      rw [List.mem_singleton.1 hx]
      exact hname
    refine ih (Nat.lt_of_le_of_lt (Path.size_render_le here name) hsize) hplain ?_
    refine .step (.entry hname.dot hname.dotdot hlength he hlink) (fun _ _ => ?_) hway
    simpa [askDirectory_of_isPlain hns] using hsize

/-- The path of a place without links leads there on a short way if it is not too long itself. -/
theorem Stands.shortWay_names (h : t.Stands place)
    (hsize : (Path.render place).utf8ByteSize < maxPath) :
    t.ShortWay [] (names (Path.render place)) := by
  have hnone : Path.IsPlain [] := fun x hx => nomatch hx
  have hway := h.shortWay_append hsize hnone .done
  rw [List.append_nil] at hway
  exact (shortWay_names_render h.isPlain.areSegments).2 hway

/-- The places on a short way have paths that are not too long. -/
theorem Leads.size_lt (h : t.Leads n here xs place) (hway : t.ShortWay here (xs ++ ys))
    (hhere : (Path.render here).utf8ByteSize < maxPath) :
    (Path.render place).utf8ByteSize < maxPath := by
  induction h with
  | done => exact hhere
  | @step here there front rest place name k n hdirectory hstep hleads ih =>
    obtain ⟨hask, hrest⟩ := hstep.shortWay_cons.1 hway
    refine ih (List.append_assoc front rest ys ▸ hrest) ?_
    cases hstep with
    | stay => exact hhere
    | up =>
      rcases List.eq_nil_or_concat here with rfl | ⟨above, last, rfl⟩
      · exact hhere
      · rw [List.concat_eq_append] at hhere ⊢
        rw [List.dropLast_concat]
        exact Nat.lt_of_le_of_lt (Path.size_render_le above last) hhere
    | entry hdot hdotdot => exact Nat.lt_of_le_of_lt (Nat.le_add_right _ _) (hask hdot hdotdot)
    | link =>
      split
      · decide
      · exact hhere

end WakeConfig.FileTree
