import Mathlib.Data.List.Basic
import WakeConfig.Files.Tree
import WakeConfig.Proofs.Paths

/-!
# Following a path

How a path is followed name by name, without the algorithm: `Leads` says that names lead from one
place to another through a number of symbolic links, each of which is followed before the names
behind it. There is at most one such place, and the names of a path may be followed in two parts.
Whatever links they go through, the place itself is reached without any (`Stands`), and its path
leads to it.
-/

namespace WakeConfig.FileTree

variable {t : FileTree} {here there mid place ns xs ys front rest : List String} {name p : String}
  {a b k links m n : Nat}

/-! ## Steps -/

/-- A name leads from a directory to another place, through `k` symbolic links; behind a link there
are names to follow first. -/
inductive Step (t : FileTree) (here : List String) :
    String → Nat → List String → List String → Prop
  | stay {name : String} : name = "." → Step t here name 0 here []
  | up {name : String} : name = ".." → Step t here name 0 here.dropLast []
  | entry {name : String} {e : Entry} : name ≠ "." → name ≠ ".." → name.utf8ByteSize ≤ maxName →
      t.entryAt (here ++ [name]) = some e → (∀ target, e ≠ .link target) →
      Step t here name 0 (here ++ [name]) []
  | link {name target : String} : name ≠ "." → name ≠ ".." → name.utf8ByteSize ≤ maxName →
      t.entryAt (here ++ [name]) = some (.link target) →
      Step t here name 1 (if Path.isAbsolute target then [] else here) (names target)

/-- Names lead from a place to a place through `n` symbolic links. Whatever a name is followed from
has to be a directory. -/
inductive Leads (t : FileTree) : Nat → List String → List String → List String → Prop
  | done {here : List String} : Leads t 0 here [] here
  | step {here there front rest place : List String} {name : String} {k n : Nat} :
      t.entryAt here = some .directory → t.Step here name k there front →
      Leads t n there (front ++ rest) place → Leads t (k + n) here (name :: rest) place

theorem Step.unique {k' : Nat} {there' front' : List String} (h : t.Step here name k there front)
    (h' : t.Step here name k' there' front') : k = k' ∧ there = there' ∧ front = front' := by
  cases h with
  | stay hname =>
    cases h' with
    | stay => exact ⟨rfl, rfl, rfl⟩
    | up hname' => exact absurd (hname.symm.trans hname') (by decide)
    | entry hdot => exact absurd hname hdot
    | link hdot => exact absurd hname hdot
  | up hname =>
    cases h' with
    | stay hname' => exact absurd (hname.symm.trans hname') (by decide)
    | up => exact ⟨rfl, rfl, rfl⟩
    | entry _ hdotdot => exact absurd hname hdotdot
    | link _ hdotdot => exact absurd hname hdotdot
  | entry hdot hdotdot _ he hlink =>
    cases h' with
    | stay hname => exact absurd hname hdot
    | up hname => exact absurd hname hdotdot
    | entry => exact ⟨rfl, rfl, rfl⟩
    | link _ _ _ he' => exact absurd (Option.some.inj (he.symm.trans he')) (hlink _)
  | link hdot hdotdot _ he =>
    cases h' with
    | stay hname => exact absurd hname hdot
    | up hname => exact absurd hname hdotdot
    | entry _ _ _ he' hlink => exact absurd (Option.some.inj (he'.symm.trans he)) (hlink _)
    | link _ _ _ he' =>
      cases he.symm.trans he'
      exact ⟨rfl, rfl, rfl⟩

/-- Names lead to one place only. -/
theorem Leads.unique {place' : List String} (h : t.Leads n here ns place)
    (h' : t.Leads m here ns place') : n = m ∧ place = place' := by
  induction h generalizing m place' with
  | done =>
    cases h'
    exact ⟨rfl, rfl⟩
  | step _ hstep _ ih =>
    cases h' with
    | step _ hstep' hrest' =>
      obtain ⟨rfl, rfl, rfl⟩ := hstep.unique hstep'
      obtain ⟨rfl, rfl⟩ := ih hrest'
      exact ⟨rfl, rfl⟩

theorem Leads.append (h : t.Leads a here xs mid) (h' : t.Leads b mid ys place) :
    t.Leads (a + b) here (xs ++ ys) place := by
  induction h with
  | done => rwa [Nat.zero_add]
  | step hdirectory hstep _ ih =>
    rw [Nat.add_assoc]
    exact .step hdirectory hstep (List.append_assoc _ _ ys ▸ ih h')

theorem Leads.exists_mid (h : t.Leads n here (xs ++ ys) place) :
    ∃ a b mid, n = a + b ∧ t.Leads a here xs mid ∧ t.Leads b mid ys place := by
  generalize hns : xs ++ ys = ns at h
  induction h generalizing xs with
  | done =>
    obtain ⟨rfl, rfl⟩ := List.append_eq_nil_iff.1 hns
    exact ⟨0, 0, _, rfl, .done, .done⟩
  | @step here there front rest place name k n hdirectory hstep hrest ih =>
    cases xs with
    | nil =>
      obtain rfl : ys = name :: rest := hns
      exact ⟨0, k + n, here, (Nat.zero_add _).symm, .done, .step hdirectory hstep hrest⟩
    | cons x xs =>
      obtain ⟨rfl, rfl⟩ := List.cons.inj hns
      obtain ⟨a, b, mid, rfl, ha, hb⟩ := ih (List.append_assoc front xs ys)
      exact ⟨k + a, b, mid, (Nat.add_assoc k a b).symm, .step hdirectory hstep ha, hb⟩

/-- Names are followed in two parts. -/
theorem leads_append : t.Leads n here (xs ++ ys) place ↔
    ∃ a b mid, n = a + b ∧ t.Leads a here xs mid ∧ t.Leads b mid ys place := by
  constructor
  · exact Leads.exists_mid
  · rintro ⟨a, b, mid, rfl, ha, hb⟩
    exact ha.append hb

/-- Behind names that are known to lead to a place, the rest is followed from there. -/
theorem Leads.append_iff (h : t.Leads 0 here xs mid) :
    t.Leads n here (xs ++ ys) place ↔ t.Leads n mid ys place := by
  rw [leads_append]
  constructor
  · rintro ⟨a, b, mid', rfl, ha, hb⟩
    obtain ⟨rfl, rfl⟩ := h.unique ha
    rwa [Nat.zero_add]
  · intro hrest
    exact ⟨0, n, mid, (Nat.zero_add n).symm, h, hrest⟩

theorem leads_cons : t.Leads n here (name :: rest) place ↔ t.entryAt here = some .directory ∧
    ∃ k m there front, n = k + m ∧ t.Step here name k there front ∧
      t.Leads m there (front ++ rest) place := by
  constructor
  · intro h
    cases h with
    | step hdirectory hstep hrest => exact ⟨hdirectory, _, _, _, _, rfl, hstep, hrest⟩
  · rintro ⟨hdirectory, k, m, there, front, rfl, hstep, hrest⟩
    exact .step hdirectory hstep hrest

theorem leads_stay : t.Leads n here ("." :: rest) place ↔
    t.entryAt here = some .directory ∧ t.Leads n here rest place := by
  rw [leads_cons]
  refine and_congr_right fun _ =>
    ⟨?_, fun h => ⟨0, n, here, [], (Nat.zero_add n).symm, .stay rfl, h⟩⟩
  rintro ⟨k, m, there, front, rfl, hstep, hrest⟩
  obtain ⟨rfl, rfl, rfl⟩ := hstep.unique (.stay rfl)
  rwa [Nat.zero_add]

theorem go_cons (t : FileTree) (links : Nat) (here : List String) (name : String)
    (rest : List String) :
    go t links here (name :: rest) =
      match t.entryAt here with
      | some .directory =>
        if name = "." then go t links here rest
        else if name = ".." then go t links here.dropLast rest
        else if maxName < name.utf8ByteSize then .error .nameTooLong
        else
          match t.entryAt (here ++ [name]) with
          | none => .ok ⟨here, name :: rest⟩
          | some (.link target) =>
            match links with
            | 0 => .error .linkLoop
            | links + 1 => go t links (if Path.isAbsolute target then [] else here)
                (names target ++ rest)
          | some _ => go t links (here ++ [name]) rest
      | _ => .error .notDirectory := by
  cases links <;> rfl

theorem Step.go_eq (h : t.Step here name k there front)
    (hdirectory : t.entryAt here = some .directory) (rest : List String) :
    go t (k + links) here (name :: rest) = go t links there (front ++ rest) := by
  rw [go_cons, hdirectory]
  cases h with
  | stay hname => simp [hname]
  | up hname => simp [hname]
  | @entry e hdot hdotdot hsize he hlink =>
    simp only [hdot, hdotdot, Nat.not_lt.2 hsize, he, if_false, Nat.zero_add]
    cases e with
    | link target => exact absurd rfl (hlink target)
    | _ => rfl
  | link hdot hdotdot hsize he =>
    simp only [hdot, hdotdot, Nat.not_lt.2 hsize, he, if_false, Nat.add_comm 1]

/-- The first name that is followed to a place without anything missing is a step. -/
theorem exists_step_of_go (h : go t links here (name :: rest) = .ok ⟨place, []⟩) :
    t.entryAt here = some .directory ∧ ∃ k left there front, links = k + left ∧
      t.Step here name k there front ∧ go t left there (front ++ rest) = .ok ⟨place, []⟩ := by
  rw [go_cons] at h
  split at h
  · rename_i hdirectory
    refine ⟨hdirectory, ?_⟩
    split at h
    · rename_i hname
      exact ⟨0, links, here, [], (Nat.zero_add links).symm, .stay hname, h⟩
    rename_i hdot
    split at h
    · rename_i hname
      exact ⟨0, links, here.dropLast, [], (Nat.zero_add links).symm, .up hname, h⟩
    rename_i hdotdot
    split at h
    · cases h
    rename_i hsize
    split at h
    · cases h
    · rename_i target htarget
      cases links with
      | zero => cases h
      | succ links =>
        exact ⟨1, links, _, names target, Nat.add_comm links 1,
          .link hdot hdotdot (Nat.le_of_not_lt hsize) htarget, h⟩
    · rename_i e hlink he
      exact ⟨0, links, here ++ [name], [], (Nat.zero_add links).symm,
        .entry hdot hdotdot (Nat.le_of_not_lt hsize) he hlink, h⟩
  · cases h

theorem Leads.go_eq (h : t.Leads n here ns place) (hn : n ≤ links) :
    go t links here ns = .ok ⟨place, []⟩ := by
  induction h generalizing links with
  | done => exact go_nil t links _
  | @step here there front rest place name k n hdirectory hstep _ ih =>
    obtain ⟨left, rfl⟩ := Nat.exists_eq_add_of_le (Nat.le_trans (Nat.le_add_right k n) hn)
    rw [hstep.go_eq hdirectory]
    exact ih (Nat.le_of_add_le_add_left hn)

theorem exists_leads_of_go (h : go t links here ns = .ok ⟨place, []⟩) :
    ∃ n, n ≤ links ∧ t.Leads n here ns place := by
  induction links using Nat.strongRecOn generalizing here ns with
  | ind links ihLinks =>
    induction ns generalizing here with
    | nil =>
      rw [go_nil] at h
      cases h
      exact ⟨0, Nat.zero_le links, .done⟩
    | cons name rest ih =>
      obtain ⟨hdirectory, k, left, there, front, hlinks, hstep, hrest⟩ := exists_step_of_go h
      have hnext : ∃ n, n ≤ left ∧ t.Leads n there (front ++ rest) place := by
        -- behind a link fewer links are left, and behind any other name fewer names
        rcases Nat.eq_zero_or_pos k with rfl | hk
        · obtain rfl : links = left := by omega
          cases hstep <;> exact ih hrest
        · exact ihLinks left (by omega) hrest
      obtain ⟨n, hn, hleads⟩ := hnext
      exact ⟨k + n, by omega, .step hdirectory hstep hleads⟩

/-- The algorithm follows names to the place to which they lead, if they do so through few enough
links. -/
theorem go_eq_ok_iff :
    go t links here ns = .ok ⟨place, []⟩ ↔ ∃ n, n ≤ links ∧ t.Leads n here ns place := by
  constructor
  · exact exists_leads_of_go
  · rintro ⟨n, hn, h⟩
    exact h.go_eq hn

theorem placeOf_eq_ok_iff :
    t.placeOf ns = .ok place ↔ ∃ n, n ≤ maxLinks ∧ t.Leads n [] ns place := by
  rw [← go_eq_ok_iff, placeOf]
  rcases go t maxLinks [] ns with fault | ⟨reached, missing⟩
  · simp
  · cases missing <;> simp

theorem find_eq_ok_iff :
    t.find p = .ok place ↔ ∃ n, n ≤ maxLinks ∧ t.Leads n [] (names p) place :=
  placeOf_eq_ok_iff

/-! ## Places without links -/

/-- A place that is reached without a symbolic link: everything above it is a directory, and it is
an entry itself and no link. -/
inductive Stands (t : FileTree) : List String → Prop
  | root : Stands t []
  | entry {here : List String} {name : String} {e : Entry} :
      Stands t here → t.entryAt here = some .directory →
      Path.IsName name → name.utf8ByteSize ≤ maxName →
      t.entryAt (here ++ [name]) = some e → (∀ target, e ≠ .link target) →
      Stands t (here ++ [name])

theorem Stands.isPlain (h : t.Stands place) : Path.IsPlain place := by
  induction h with
  | root => exact fun name hname => nomatch hname
  | entry _ _ hname _ _ _ ih =>
    refine ih.append fun x hx => ?_
    rw [List.mem_singleton.1 hx]
    exact hname

theorem Stands.dropLast (h : t.Stands place) : t.Stands place.dropLast := by
  cases h with
  | root => exact .root
  | entry hh _ _ _ _ _ =>
    rw [List.dropLast_concat]
    exact hh

/-- What is above a place is a directory. -/
theorem Stands.entryAt_dropLast (h : t.Stands place) :
    t.entryAt place.dropLast = some .directory := by
  cases h with
  | root => rfl
  | entry _ hdirectory _ _ _ _ =>
    rw [List.dropLast_concat]
    exact hdirectory

theorem isSegment_of_mem_names (h : name ∈ names p) : Path.IsSegment name := by
  rcases List.mem_append.1 h with h | h
  · exact Path.isSegment_of_mem_segments h
  · split at h
    · rw [List.mem_singleton.1 h]
      exact fun hdot => absurd rfl hdot
    · cases h

/-- A step ends at a place without links, and what is behind a link may be followed as well. -/
theorem Step.stands (h : t.Step here name k there front) (hh : t.Stands here)
    (hdirectory : t.entryAt here = some .directory) (hname : Path.IsSegment name) :
    t.Stands there ∧ ∀ x ∈ front, Path.IsSegment x := by
  have hnone : ∀ x ∈ ([] : List String), Path.IsSegment x := fun x hx => nomatch hx
  cases h with
  | stay => exact ⟨hh, hnone⟩
  | up => exact ⟨hh.dropLast, hnone⟩
  | entry hdot hdotdot hsize he hlink =>
    exact ⟨.entry hh hdirectory (hname hdot hdotdot) hsize he hlink, hnone⟩
  | link =>
    refine ⟨?_, fun x hx => isSegment_of_mem_names hx⟩
    split
    · exact .root
    · exact hh

/-- Names lead to a place that is reached without links. -/
theorem Leads.stands (h : t.Leads n here ns place) (hh : t.Stands here)
    (hns : ∀ x ∈ ns, Path.IsSegment x) : t.Stands place := by
  induction h with
  | done => exact hh
  | step hdirectory hstep _ ih =>
    obtain ⟨hthere, hfront⟩ := hstep.stands hh hdirectory (hns _ List.mem_cons_self)
    refine ih hthere fun x hx => ?_
    exact (List.mem_append.1 hx).elim (hfront x) fun hx => hns x (List.mem_cons_of_mem _ hx)

/-- A path leads to a place that is reached without links. -/
theorem stands_find (h : t.find p = .ok place) : t.Stands place := by
  obtain ⟨n, -, hleads⟩ := find_eq_ok_iff.1 h
  exact hleads.stands .root fun x hx => isSegment_of_mem_names hx

/-- The names of a place lead to it and no link is met. -/
theorem Stands.leads (h : t.Stands place) : t.Leads 0 [] place place := by
  induction h with
  | root => exact .done
  | entry _ hdirectory hname hsize he hlink ih =>
    exact ih.append (.step hdirectory (.entry hname.dot hname.dotdot hsize he hlink) .done)

/-! ## Paths of places -/

theorem names_render (h : Path.AreSegments (here ++ [name])) :
    names (Path.render (here ++ [name])) = here ++ [name] := by
  obtain ⟨hnonempty, hunsplit⟩ := h name (List.mem_append_right here List.mem_cons_self)
  have hlast : (Path.render (here ++ [name])).toList.getLast? ≠ some '/' := by
    have hne : name.toList ≠ [] := by simpa using hnonempty
    rw [Path.toList_render_append, List.getLast?_append_of_ne_nil _ (List.cons_ne_nil _ _),
      List.getLast?_cons_of_ne_nil hne]
    exact fun h => hunsplit (List.mem_of_getLast? h)
  rw [names, Path.segments_render h, if_neg hlast, List.append_nil]

/-- The path of some names leads where they do. -/
theorem leads_names_render (h : Path.AreSegments ns) :
    t.Leads n [] (names (Path.render ns)) place ↔ t.Leads n [] ns place := by
  rcases List.eq_nil_or_concat ns with rfl | ⟨above, name, rfl⟩
  · exact leads_stay.trans (and_iff_right rfl)
  · rw [List.concat_eq_append] at h ⊢
    rw [names_render h]

theorem find_render_iff (h : Path.AreSegments ns) :
    t.find (Path.render ns) = .ok place ↔ ∃ n, n ≤ maxLinks ∧ t.Leads n [] ns place := by
  simp only [find_eq_ok_iff, leads_names_render h]

/-- The path of a place that is reached without links leads to that place. -/
theorem Stands.find_render (h : t.Stands place) : t.find (Path.render place) = .ok place :=
  (find_render_iff h.isPlain.areSegments).2 ⟨0, Nat.zero_le maxLinks, h.leads⟩

end WakeConfig.FileTree
