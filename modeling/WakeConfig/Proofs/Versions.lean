import Mathlib.Data.List.GetD
import Mathlib.Order.PiLex
import WakeConfig.Config.Default
import WakeConfig.Proofs.Literals
import WakeConfig.Version

/-!
# The order of versions

Versions are compared in doubles, part by part. Where the parts of one of them are below `2 ^ 53`
this is the lexicographic order of their exact numbers, with zeros behind the shorter one: rounding
takes no number across such a bound, and a difference has its sign. `check_exact` says what this
means for a declared version.
-/

namespace WakeConfig

/-! ## Rounding and order -/

namespace Binary64

variable {n m : Nat}

theorem lt_of_nearest?_eq_none (h : nearest? n = none) : maxSafe < n := by
  refine Nat.lt_of_not_le fun hle => ?_
  rw [nearest?_of_le hle] at h
  cases h

/-- Rounding keeps the order of two numbers of which one is in the safe range. -/
theorem compare_roundNat (h : n ≤ maxSafe ∨ m ≤ maxSafe) :
    compare (roundNat n) (roundNat m) = compare n m := by
  by_cases hn : n ≤ maxSafe
  · by_cases hm : m ≤ maxSafe
    · rw [roundNat_of_le hn, roundNat_of_le hm]
    · have hround := lt_roundNat (Nat.lt_of_not_le hm)
      rw [roundNat_of_le hn, compare_lt_iff_lt.2 (by omega), compare_lt_iff_lt.2 (by omega)]
  · have hm : m ≤ maxSafe := h.resolve_left hn
    have hround := lt_roundNat (Nat.lt_of_not_le hn)
    rw [roundNat_of_le hm, compare_gt_iff_gt.2 (by omega), compare_gt_iff_gt.2 (by omega)]

theorem roundNat_pos (h : 0 < n) : 0 < roundNat n := by
  refine Nat.pos_of_ne_zero fun hround => ?_
  have := (roundNat_le_iff (Nat.zero_le maxSafe)).1 (Nat.le_of_eq hround)
  omega

/-- Rounding keeps the sign of a number. -/
theorem compare_roundInt (n : Int) : compare (roundInt n) 0 = compare n 0 := by
  unfold roundInt
  split
  · rename_i hn
    have hpos : 0 < roundNat n.natAbs := roundNat_pos (by omega)
    rw [compare_lt_iff_lt.2 hn, compare_lt_iff_lt.2 (by omega)]
  · rename_i hn
    rcases Int.lt_or_eq_of_le (Int.not_lt.1 hn) with hpos | rfl
    · have hround : 0 < roundNat n.natAbs := roundNat_pos (by omega)
      rw [compare_gt_iff_gt.2 hpos, compare_gt_iff_gt.2 (by omega)]
    · rfl

/-- A difference of two numbers has their order. -/
theorem compare_sub (a b : Nat) : compare ((a : Int) - b) 0 = compare a b := by
  rcases Nat.lt_trichotomy a b with hlt | rfl | hgt
  · rw [compare_lt_iff_lt.2 hlt, compare_lt_iff_lt.2 (by omega)]
  · rw [compare_eq_iff_eq.2 rfl, compare_eq_iff_eq.2 (by omega)]
  · rw [compare_gt_iff_gt.2 hgt, compare_gt_iff_gt.2 (by omega)]

end Binary64

namespace Version

open Text (isDigit isBlank digitsValue)
open Binary64 (nearest? maxSafe)

variable {n m : Nat} {as bs : List VersionPart} {xs ys : List Nat} {d : Difference}

/-! ## Differences -/

/-- The order of two sides that a difference stands for. An indeterminate one stands for none. -/
def Difference.order? : Difference → Option Ordering
  | finite n => some (compare n 0)
  | positiveInfinity => some .gt
  | negativeInfinity => some .lt
  | indeterminate => none

theorem Difference.isOlder_iff : d.isOlder = true ↔ d.order? = some .lt := by
  cases d <;> simp [isOlder, order?, Int.compare_eq_lt]

theorem Difference.order?_eq_eq_iff : d.order? = some .eq ↔ d = .finite 0 := by
  cases d <;> simp [order?]

/-- The difference of two parts has the order of their exact numbers if one of them is in the safe
range. -/
theorem order?_difference (h : n ≤ maxSafe ∨ m ≤ maxSafe) :
    (difference (nearest? n) (nearest? m)).order? = some (compare n m) := by
  cases hn : nearest? n with
  | none =>
    have hlt := Binary64.lt_of_nearest?_eq_none hn
    have hm := h.resolve_left (Nat.not_le.2 hlt)
    rw [Binary64.nearest?_of_le hm, compare_gt_iff_gt.2 (by omega)]
    rfl
  | some a =>
    cases hm : nearest? m with
    | none =>
      have hlt := Binary64.lt_of_nearest?_eq_none hm
      have hn := h.resolve_right (Nat.not_le.2 hlt)
      rw [compare_lt_iff_lt.2 (by omega)]
      rfl
    | some b =>
      rw [Binary64.eq_of_nearest? hn, Binary64.eq_of_nearest? hm, ← Binary64.compare_roundNat h,
        difference, Difference.order?, Binary64.compare_roundInt, Binary64.compare_sub]

/-! ## The first place that differs -/

/-- The difference of the parts at a place. Parts that are missing are zero. -/
def differenceAt (as bs : List VersionPart) (i : Nat) : Difference :=
  difference (as.getD i (some 0)) (bs.getD i (some 0))

theorem differenceAt_succ (as bs : List VersionPart) (i : Nat) :
    differenceAt as bs (i + 1) = differenceAt as.tail bs.tail i := by
  cases as <;> cases bs <;> rfl

/-- One step of the comparison: the parts at the first place, then the parts behind them. -/
theorem compareParts_eq (as bs : List VersionPart) : compareParts as bs =
    if differenceAt as bs 0 = .finite 0 then compareParts as.tail bs.tail
    else differenceAt as bs 0 := by
  cases as with
  | nil =>
    cases bs with
    | nil => rfl
    | cons b bs =>
      rw [compareParts]
      rfl
  | cons a as =>
    cases bs with
    | nil =>
      rw [compareParts]
      rfl
    | cons b bs =>
      rw [compareParts]
      rfl

/-- The comparison ends with the difference at the first place where there is one, if there is
such a place. -/
theorem compareParts_cases (as bs : List VersionPart) :
    ((∀ i, differenceAt as bs i = .finite 0) ∧ compareParts as bs = .finite 0) ∨
    ∃ i, (∀ j < i, differenceAt as bs j = .finite 0) ∧ differenceAt as bs i ≠ .finite 0 ∧
      compareParts as bs = differenceAt as bs i := by
  obtain ⟨k, has, hbs⟩ : ∃ k, as.length ≤ k ∧ bs.length ≤ k :=
    ⟨_, Nat.le_max_left as.length bs.length, Nat.le_max_right as.length bs.length⟩
  induction k generalizing as bs with
  | zero =>
    obtain rfl := List.eq_nil_of_length_eq_zero (Nat.le_zero.1 has)
    obtain rfl := List.eq_nil_of_length_eq_zero (Nat.le_zero.1 hbs)
    exact .inl ⟨fun i => rfl, by rw [compareParts]⟩
  | succ k ih =>
    rw [compareParts_eq]
    split
    · rename_i hzero
      have htails := ih as.tail bs.tail (by simpa using Nat.sub_le_of_le_add has)
        (by simpa using Nat.sub_le_of_le_add hbs)
      -- the place in the tails is one less
      rcases htails with ⟨hall, hend⟩ | ⟨i, hfront, hne, hend⟩
      · refine .inl ⟨fun i => ?_, hend⟩
        cases i with
        | zero => exact hzero
        | succ i => rw [differenceAt_succ, hall i]
      · refine .inr ⟨i + 1, fun j hj => ?_, by rwa [differenceAt_succ], by rwa [differenceAt_succ]⟩
        cases j with
        | zero => exact hzero
        | succ j => rw [differenceAt_succ, hfront j (Nat.lt_of_succ_lt_succ hj)]
    · rename_i hne
      exact .inr ⟨0, fun j hj => absurd hj (Nat.not_lt_zero j), hne, rfl⟩

/-! ## The order of numbers -/

/-- The numbers of a version, with zeros behind them without end, in their lexicographic order. -/
def padded (xs : List Nat) : Lex (Nat → Nat) := toLex fun i => xs.getD i 0

theorem padded_lt_iff : padded xs < padded ys ↔
    ∃ i, (∀ j < i, xs.getD j 0 = ys.getD j 0) ∧ xs.getD i 0 < ys.getD i 0 := Iff.rfl

theorem getD_map_nearest? (xs : List Nat) (i : Nat) :
    (xs.map nearest?).getD i (some 0) = nearest? (xs.getD i 0) := by
  have hzero : nearest? 0 = some 0 := Binary64.nearest?_of_le (Nat.zero_le maxSafe)
  rw [← hzero, List.getD_map]

/-- The comparison of two versions gives their lexicographic order if at each place one of their
numbers is in the safe range. -/
theorem order?_compareParts (h : ∀ i, xs.getD i 0 ≤ maxSafe ∨ ys.getD i 0 ≤ maxSafe) :
    (compareParts (xs.map nearest?) (ys.map nearest?)).order?
      = some (compare (padded xs) (padded ys)) := by
  have hplace : ∀ i, (differenceAt (xs.map nearest?) (ys.map nearest?) i).order?
      = some (compare (xs.getD i 0) (ys.getD i 0)) := by
    intro i
    rw [differenceAt, getD_map_nearest?, getD_map_nearest?, order?_difference (h i)]
  have hsame : ∀ i, differenceAt (xs.map nearest?) (ys.map nearest?) i = .finite 0 →
      xs.getD i 0 = ys.getD i 0 := by
    intro i hi
    have horder := Difference.order?_eq_eq_iff.2 hi
    rw [hplace i] at horder
    exact compare_eq_iff_eq.1 (Option.some.inj horder)
  rcases compareParts_cases (xs.map nearest?) (ys.map nearest?) with
    ⟨hall, hend⟩ | ⟨i, hfront, hne, hend⟩
  · have heq : padded xs = padded ys := congrArg toLex (funext fun i => hsame i (hall i))
    rw [hend, compare_eq_iff_eq.2 heq]
    rfl
  · have hbefore : ∀ j < i, xs.getD j 0 = ys.getD j 0 := fun j hj => hsame j (hfront j hj)
    rw [hend, hplace i]
    rcases Nat.lt_trichotomy (xs.getD i 0) (ys.getD i 0) with hlt | heq | hgt
    · have hpadded : padded xs < padded ys := padded_lt_iff.2 ⟨i, hbefore, hlt⟩
      rw [compare_lt_iff_lt.2 hlt, compare_lt_iff_lt.2 hpadded]
    · rw [← compare_eq_iff_eq] at heq
      exact absurd (Difference.order?_eq_eq_iff.1 ((hplace i).trans (congrArg some heq))) hne
    · have hpadded : padded ys < padded xs := ⟨i, fun j hj => (hbefore j hj).symm, hgt⟩
      rw [compare_gt_iff_gt.2 hgt, compare_gt_iff_gt.2 hpadded]

/-! ## Texts of versions -/

/-- A text is a version with the given groups of digits: there is a point between any two of them,
perhaps a `v` in front, and blanks around. -/
structure Written (s : String) (groups : List (List Char)) : Prop where
  text : ∃ front mark back, s.toList = front ++ (mark ++ ['.'].intercalate groups) ++ back ∧
    (∀ c ∈ front, isBlank c = true) ∧ (mark = [] ∨ mark = ['v']) ∧ ∀ c ∈ back, isBlank c = true
  ne_nil : groups ≠ []
  digits : ∀ g ∈ groups, g ≠ [] ∧ ∀ c ∈ g, isDigit c = true

theorem all_digits_iff {groups : List (List Char)} :
    groups.all (fun part => !part.isEmpty && part.all isDigit) = true ↔
      ∀ g ∈ groups, g ≠ [] ∧ ∀ c ∈ g, isDigit c = true := by
  simp

/-- The exact numbers that groups of digits spell. -/
def numbers (groups : List (List Char)) : List Nat := groups.map digitsValue

variable {s : String} {groups : List (List Char)} {mark : List Char}

theorem intercalate_eq_nil {g : List Char} (h : ['.'].intercalate (g :: groups) = []) :
    g = [] := by
  cases groups with
  | nil => rwa [List.intercalate_singleton] at h
  | cons g' groups =>
    rw [List.intercalate_cons_cons] at h
    simp at h

theorem isDigit_or_point (hdigits : ∀ g ∈ groups, g ≠ [] ∧ ∀ c ∈ g, isDigit c = true) {c : Char}
    (hc : c ∈ ['.'].intercalate groups) : isDigit c = true ∨ c = '.' := by
  rcases Text.mem_intercalate hc with rfl | ⟨g, hg, hc⟩
  · exact .inr rfl
  · exact .inl ((hdigits g hg).2 c hc)

theorem isBlank_of_isDigit {c : Char} (h : isDigit c = true) : isBlank c = false := by
  obtain ⟨hlow, hhigh⟩ := Text.isDigit_iff.1 h
  refine Bool.eq_false_iff.2 fun hblank => ?_
  simp only [isBlank, Bool.or_eq_true, Bool.and_eq_true, decide_eq_true_eq, beq_iff_eq] at hblank
  omega

theorem dropMark_append (hmark : mark = [] ∨ mark = ['v'])
    (hdigits : ∀ g ∈ groups, g ≠ [] ∧ ∀ c ∈ g, isDigit c = true) :
    dropMark (mark ++ ['.'].intercalate groups) = ['.'].intercalate groups := by
  rcases hmark with rfl | rfl
  · rw [List.nil_append]
    unfold dropMark
    split
    · rename_i rest hrest
      have hv : isDigit 'v' = true ∨ 'v' = '.' :=
        isDigit_or_point hdigits (by rw [hrest]; exact List.mem_cons_self)
      exact absurd hv (by decide)
    · rfl
  · rfl

theorem exists_mark (s : List Char) : ∃ mark, s = mark ++ dropMark s ∧
    (mark = [] ∨ mark = ['v']) := by
  unfold dropMark
  split
  · exact ⟨['v'], rfl, .inr rfl⟩
  · exact ⟨[], rfl, .inl rfl⟩

theorem Written.parse? (h : Written s groups) :
    parse? s = some ((numbers groups).map nearest?) := by
  obtain ⟨⟨front, mark, back, hs, hfront, hmark, hback⟩, hne, hdigits⟩ := h
  have htrim : Text.trim s.toList = mark ++ ['.'].intercalate groups := by
    rw [hs]
    refine Text.trim_append hfront ?_ ?_ hback
    · intro c hc
      rcases List.mem_append.1 hc with hc | hc
      · rcases hmark with rfl | rfl
        · cases hc
        · obtain rfl := List.mem_singleton.1 hc
          decide
      · rcases isDigit_or_point hdigits hc with hc | rfl
        · exact isBlank_of_isDigit hc
        · decide
    · obtain ⟨g, groups, rfl⟩ := List.exists_cons_of_ne_nil hne
      intro hnil
      exact (hdigits g List.mem_cons_self).1 (intercalate_eq_nil (List.append_eq_nil_iff.1 hnil).2)
  have hpoints : ∀ g ∈ groups, '.' ∉ g := fun g hg hc =>
    absurd ((hdigits g hg).2 '.' hc) (by decide)
  rw [Version.parse?, htrim, dropMark_append hmark hdigits,
    List.splitOn_intercalate '.' hpoints hne]
  rw [if_pos (all_digits_iff.2 hdigits), numbers, List.map_map, Function.comp_def]

theorem exists_written_of_parse? {parts : List VersionPart} (h : parse? s = some parts) :
    ∃ groups, Written s groups := by
  unfold parse? at h
  dsimp only at h
  split at h
  · rename_i hform
    obtain ⟨mark, hmark, hform'⟩ := exists_mark (Text.trim s.toList)
    obtain ⟨front, back, hs, hfront, hback⟩ := Text.exists_trim s.toList
    refine ⟨(dropMark (Text.trim s.toList)).splitOn '.', ⟨front, mark, back, ?_, hfront, hform',
      hback⟩, List.splitOn_ne_nil _ _, all_digits_iff.1 hform⟩
    rwa [List.intercalate_splitOn, ← hmark]
  · cases h

theorem parse?_eq_none_iff : parse? s = none ↔ ∀ groups, ¬Written s groups := by
  constructor
  · intro h groups hw
    rw [hw.parse?] at h
    cases h
  · intro h
    cases hparse : parse? s with
    | none => rfl
    | some parts =>
      obtain ⟨groups, hw⟩ := exists_written_of_parse? hparse
      exact absurd hw (h groups)

/-! ## Checking -/

variable {s' : String} {groups' : List (List Char)}

theorem Written.compare? (h : Written s groups) (h' : Written s' groups') :
    compare? s s' = some (compareParts ((numbers groups).map nearest?)
      ((numbers groups').map nearest?)) := by
  rw [Version.compare?, h.parse?, h'.parse?]

/-- A version is outdated against another one exactly if it is the smaller one of the two. -/
theorem Written.check_iff (h : Written s groups) (h' : Written s' groups') {o : Ordering}
    (ho : (compareParts ((numbers groups).map nearest?) ((numbers groups').map nearest?)).order?
      = some o) :
    (check s' (some s) = .outdated s s' ↔ o = .lt) ∧ (check s' (some s) = .ok s ↔ o ≠ .lt) := by
  have holder : (compareParts ((numbers groups).map nearest?)
      ((numbers groups').map nearest?)).isOlder = true ↔ o = .lt := by
    rw [Difference.isOlder_iff, ho, Option.some.injEq]
  rw [Version.check, h.compare? h']
  dsimp only
  split
  · rename_i hold
    simp [holder.1 hold]
  · rename_i hold
    have hne : o ≠ .lt := fun heq => hold (holder.2 heq)
    simp [hne]

theorem getD_numbers_le {least : List (List Char)}
    (h : ∀ g ∈ least, digitsValue g < powerOfTwo 53) (i : Nat) :
    (numbers least).getD i 0 ≤ maxSafe := by
  rw [List.getD_eq_getElem?_getD]
  cases hi : (numbers least)[i]? with
  | none => exact Nat.zero_le _
  | some n =>
    obtain ⟨g, hg, rfl⟩ := List.mem_map.1 (List.mem_of_getElem? hi)
    exact Nat.le_sub_one_of_lt (h g hg)

/-- **A declared version is checked exactly.** Let the numbers of the least version be below
`2 ^ 53`. A declared text is invalid exactly if it is no version. A version is outdated exactly if
its exact numbers, however large, are before those of the least version in lexicographic order, with
zeros behind them; and any other one is fine. The comparison of the two has the sign of this order,
and the other way round the opposite one. -/
theorem check_exact {minimum : String} {least : List (List Char)} (hleast : Written minimum least)
    (hsafe : ∀ g ∈ least, digitsValue g < powerOfTwo 53) (declared : String) :
    (check minimum (some declared) = .invalid declared ↔ ∀ groups, ¬Written declared groups) ∧
    ∀ groups, Written declared groups →
      (check minimum (some declared) = .outdated declared minimum ↔
        padded (numbers groups) < padded (numbers least)) ∧
      (check minimum (some declared) = .ok declared ↔
        ¬padded (numbers groups) < padded (numbers least)) ∧
      ∃ d d', compare? declared minimum = some d ∧ compare? minimum declared = some d' ∧
        d.order? = some (compare (padded (numbers groups)) (padded (numbers least))) ∧
        d'.order? = some (compare (padded (numbers groups)) (padded (numbers least))).swap := by
  refine ⟨?_, fun groups hgroups => ?_⟩
  · rw [← parse?_eq_none_iff, Version.check, Version.compare?, hleast.parse?]
    cases parse? declared with
    | none => simp
    | some parts =>
      dsimp only
      split <;> simp
  · have horder : (compareParts ((numbers groups).map nearest?)
        ((numbers least).map nearest?)).order?
          = some (compare (padded (numbers groups)) (padded (numbers least))) :=
      order?_compareParts fun i => .inr (getD_numbers_le hsafe i)
    have hback : (compareParts ((numbers least).map nearest?)
        ((numbers groups).map nearest?)).order?
          = some (compare (padded (numbers least)) (padded (numbers groups))) :=
      order?_compareParts fun i => .inl (getD_numbers_le hsafe i)
    obtain ⟨houtdated, hok⟩ := hgroups.check_iff hleast horder
    rw [Ne, compare_lt_iff_lt] at hok
    rw [compare_lt_iff_lt] at houtdated
    exact ⟨houtdated, hok, _, _, hgroups.compare? hleast, hleast.compare? hgroups, horder,
      hback.trans (congrArg some Std.OrientedOrd.eq_swap)⟩

/-- Against the least version that needs no change, a version between blanks whose last number is
`2 ^ 53 + 1`, which is no double, is fine, and one with a smaller number in front of it is not. -/
theorem check_exact_default :
    Written Default.configVersion [['0'], ['2'], ['8']] ∧
      (∀ g ∈ [['0'], ['2'], ['8']], digitsValue g < powerOfTwo 53) ∧
      check Default.configVersion (some " v0.2.9007199254740993\t")
        = .ok " v0.2.9007199254740993\t" ∧
      check Default.configVersion (some "0.1.9007199254740993")
        = .outdated "0.1.9007199254740993" Default.configVersion ∧
      check Default.configVersion (some "1..2") = .invalid "1..2" := by
  have hleast : Written Default.configVersion [['0'], ['2'], ['8']] :=
    ⟨⟨[], [], [], by decide, List.forall_mem_nil _, .inl rfl, List.forall_mem_nil _⟩, by decide,
      all_digits_iff.1 (by decide)⟩
  have hsafe : ∀ g ∈ [['0'], ['2'], ['8']], digitsValue g < powerOfTwo 53 := by decide
  have hlarge : Written " v0.2.9007199254740993\t"
      [['0'], ['2'], "9007199254740993".toList] :=
    ⟨⟨[' '], ['v'], ['\t'], by decide, List.all_eq_true.1 (by decide), .inr rfl,
      List.all_eq_true.1 (by decide)⟩, by decide, all_digits_iff.1 (by decide)⟩
  have hsmall : Written "0.1.9007199254740993" [['0'], ['1'], "9007199254740993".toList] :=
    ⟨⟨[], [], [], by decide, List.forall_mem_nil _, .inl rfl, List.forall_mem_nil _⟩, by decide,
      all_digits_iff.1 (by decide)⟩
  have habove : padded (numbers [['0'], ['2'], ['8']])
      < padded (numbers [['0'], ['2'], "9007199254740993".toList]) :=
    padded_lt_iff.2 ⟨2, by decide, by decide⟩
  have hbelow : padded (numbers [['0'], ['1'], "9007199254740993".toList])
      < padded (numbers [['0'], ['2'], ['8']]) := padded_lt_iff.2 ⟨1, by decide, by decide⟩
  have hnone : ∀ groups, ¬Written "1..2" groups := parse?_eq_none_iff.1 (by decide)
  exact ⟨hleast, hsafe,
    ((check_exact hleast hsafe _).2 _ hlarge).2.1.2 (lt_asymm habove),
    ((check_exact hleast hsafe _).2 _ hsmall).1.2 hbelow,
    (check_exact hleast hsafe _).1.2 hnone⟩

end Version

end WakeConfig
