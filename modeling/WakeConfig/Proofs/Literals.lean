import WakeConfig.Net.IpAddress

/-!
# The characters of literal addresses

A version 4 address is digits and points. A version 6 address has a colon, and whatever zone it has,
there is no closing bracket in it.
-/

namespace WakeConfig

/-- The characters of joined texts are those of the texts, and the one between them. -/
theorem Text.mem_intercalate {c separator : Char} {texts : List (List Char)}
    (h : c ∈ [separator].intercalate texts) : c = separator ∨ ∃ s ∈ texts, c ∈ s := by
  induction texts with
  | nil => cases h
  | cons s texts ih =>
    cases texts with
    | nil => exact .inr ⟨s, by simp, by simpa using h⟩
    | cons s' texts =>
      rw [List.intercalate_cons_cons, List.mem_append, List.mem_append, List.mem_singleton] at h
      rcases h with (h | h) | h
      · exact .inr ⟨s, List.mem_cons_self, h⟩
      · exact .inl h
      · rcases ih h with h | ⟨s'', hs, hc⟩
        · exact .inl h
        · exact .inr ⟨s'', List.mem_cons_of_mem _ hs, hc⟩

namespace IpAddress

open Text (isDigit)

variable {c : Char} {s : List Char}

/-! ## Version 4 -/

theorem isDigit_of_isPart (h : isPart s = true) (hc : c ∈ s) : isDigit c = true := by
  simp only [isPart, Bool.and_eq_true] at h
  exact List.all_eq_true.1 h.1.1.2 c hc

/-- A version 4 address is digits and points. -/
theorem isDigit_or_point_of_isV4 (h : isV4 s = true) (hc : c ∈ s) : isDigit c = true ∨ c = '.' := by
  simp only [isV4, Bool.and_eq_true] at h
  have hs : ['.'].intercalate (s.splitOn '.') = s := List.intercalate_splitOn '.'
  rw [← hs] at hc
  rcases Text.mem_intercalate hc with rfl | ⟨part, hpart, hc⟩
  · exact .inr rfl
  · exact .inl (isDigit_of_isPart (List.all_eq_true.1 h.2 part hpart) hc)

theorem ne_nil_of_isV4 (h : isV4 s = true) : s ≠ [] := by
  rintro rfl
  revert h
  decide

theorem not_mem_of_isV4 (h : isV4 s = true) (hdigit : isDigit c = false) (hpoint : c ≠ '.') :
    c ∉ s := by
  intro hc
  rcases isDigit_or_point_of_isV4 h hc with hd | rfl
  · rw [hd] at hdigit
    cases hdigit
  · exact hpoint rfl

/-! ## Version 6 -/

theorem not_mem_of_isGroup (h : isGroup s = true) : ']' ∉ s := by
  simp only [isGroup, Bool.and_eq_true] at h
  exact fun hc => absurd (List.all_eq_true.1 h.2 _ hc) (by decide)

theorem mem_colonItems (hc : c ∈ s) : c = ':' ∨ ∃ item ∈ colonItems s, c ∈ item := by
  unfold colonItems
  split
  · rename_i h
    rw [List.isEmpty_iff.1 h] at hc
    cases hc
  · have hs : [':'].intercalate (s.splitOn ':') = s := List.intercalate_splitOn ':'
    rw [← hs] at hc
    exact Text.mem_intercalate hc

theorem not_mem_of_groupCount? {items : List (List Char)} {n : Nat}
    (h : groupCount? items = some n) : ∀ item ∈ items, ']' ∉ item := by
  induction items generalizing n with
  | nil => exact fun item hitem => nomatch hitem
  | cons first items ih =>
    cases items with
    | nil =>
      intro item hitem
      rw [List.mem_singleton.1 hitem]
      rw [groupCount?] at h
      split at h
      · rename_i hgroup
        exact not_mem_of_isGroup hgroup
      · split at h
        · rename_i hv4
          exact not_mem_of_isV4 hv4 rfl (by decide)
        · cases h
    | cons next items =>
      rw [groupCount?] at h
      · split at h
        · rename_i hgroup
          obtain ⟨m, hm, -⟩ := Option.map_eq_some_iff.1 h
          intro item hitem
          rcases List.mem_cons.1 hitem with rfl | hitem
          · exact not_mem_of_isGroup hgroup
          · exact ih hm item hitem
        · cases h
      · exact fun h => nomatch h

theorem eq_of_splitGap? {before after : List Char} (h : splitGap? s = some (before, after)) :
    s = before ++ ':' :: ':' :: after := by
  fun_induction splitGap? s generalizing before after with
  | case1 => cases h
  | case2 rest =>
    cases h
    rfl
  | case3 c rest _ ih =>
    obtain ⟨⟨before', after'⟩, hrest, heq⟩ := Option.map_eq_some_iff.1 h
    cases heq
    rw [ih hrest]
    rfl

theorem not_mem_of_items {items : List Char} (h : ∀ item ∈ colonItems items, ']' ∉ item) :
    ']' ∉ items := by
  intro hc
  rcases mem_colonItems hc with h' | ⟨item, hitem, hc⟩
  · exact absurd h' (by decide)
  · exact h item hitem hc

/-- A version 6 address has no closing bracket. -/
theorem not_mem_of_isV6 (h : isV6 s = true) : ']' ∉ s := by
  simp only [isV6, Bool.and_eq_true] at h
  obtain ⟨hbare, hzone⟩ := h
  have hsuffix : ']' ∉ s.dropWhile (· != '%') := by
    intro hc
    cases hz : s.dropWhile (· != '%') with
    | nil =>
      rw [hz] at hc
      cases hc
    | cons c zone =>
      have hpercent : c = '%' := by
        have := List.head?_dropWhile_not (· != '%') s
        rw [hz] at this
        simpa using this
      rw [hz] at hc hzone
      subst hpercent
      rcases List.mem_cons.1 hc with hc | hc
      · exact absurd hc (by decide)
      · simp only [isZoneSuffix, Bool.and_eq_true] at hzone
        exact absurd (List.all_eq_true.1 hzone.2 _ hc) (by decide)
  have hprefix : ']' ∉ s.takeWhile (· != '%') := by
    unfold isBareV6 at hbare
    split at hbare
    · exact not_mem_of_items (not_mem_of_groupCount? (by simpa using hbare))
    · rename_i before after hgap
      rw [Bool.and_eq_true] at hbare
      rw [eq_of_splitGap? hgap]
      have hbefore : ']' ∉ before :=
        not_mem_of_items fun item hitem =>
          not_mem_of_isGroup (List.all_eq_true.1 hbare.1 item hitem)
      have hafter : ']' ∉ after := by
        cases hcount : groupCount? (colonItems after) with
        | none =>
          rw [hcount] at hbare
          cases hbare.2
        | some n => exact not_mem_of_items (not_mem_of_groupCount? hcount)
      simpa using ⟨hbefore, hafter⟩
  rw [← List.takeWhile_append_dropWhile (p := (· != '%')) (l := s)]
  exact fun hc => (List.mem_append.1 hc).elim hprefix hsuffix

theorem colonItems_of_not_mem (h : ':' ∉ s) : (colonItems s).length ≤ 1 := by
  unfold colonItems
  split
  · exact Nat.zero_le 1
  · have hsplit : ([':'].intercalate [s]).splitOn ':' = [s] :=
      List.splitOn_intercalate ':' (by simpa using h) (List.cons_ne_nil s [])
    rw [List.intercalate_singleton] at hsplit
    rw [hsplit]
    exact Nat.le_refl 1

theorem groupCount?_le {items : List (List Char)} {n : Nat} (h : groupCount? items = some n) :
    n ≤ items.length + 1 := by
  fun_induction groupCount? items generalizing n with
  | case1 => cases h; exact Nat.zero_le _
  | case2 => cases h; simp
  | case3 => cases h; simp
  | case4 => cases h
  | case5 group rest _ _ ih =>
    obtain ⟨m, hm, rfl⟩ := Option.map_eq_some_iff.1 h
    exact Nat.succ_le_succ (ih hm)
  | case6 => cases h

/-- A version 6 address has a colon: without one there are at most two groups. -/
theorem colon_mem_of_isV6 (h : isV6 s = true) : ':' ∈ s := by
  simp only [isV6, Bool.and_eq_true] at h
  refine (List.takeWhile_prefix (· != '%')).subset ?_
  obtain ⟨hbare, -⟩ := h
  unfold isBareV6 at hbare
  split at hbare
  · refine Decidable.byContradiction fun hcolon => ?_
    have hcount := groupCount?_le (beq_iff_eq.1 hbare)
    have hitems := colonItems_of_not_mem hcolon
    omega
  · rename_i before after hgap
    rw [eq_of_splitGap? hgap]
    simp

/-! ## Classification -/

theorem isV4_of_family? {host : String} (h : family? host = some .v4) :
    isV4 host.toList = true := by
  unfold family? at h
  split at h
  · assumption
  · split at h <;> cases h

theorem isV6_of_family? {host : String} (h : family? host = some .v6) :
    isV6 host.toList = true := by
  unfold family? at h
  split at h
  · cases h
  · split at h
    · assumption
    · cases h

end IpAddress

end WakeConfig
