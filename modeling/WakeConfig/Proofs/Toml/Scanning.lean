import Mathlib.Data.List.Chain
import WakeConfig.Toml.FloatLiteral

/-!
# The scanner over positions

Marking as a loop over the positions of a text: a step finds where the piece at its position ends,
which may be past the end of the text, copies or wraps what stands up to there, and goes on from
there. `scanFrom_eq` says what the loop writes and `mark_eq` that this is what `mark` writes;
`scanner_covers` says that for every text whatever, a valid document or not, each step advances and
nothing is lost or written twice.
-/

namespace WakeConfig.Toml.FloatLiteral

/-! ## Ends of pieces -/

/-- The first position from `i` on without a character that meets a condition. -/
def skipWhile (p : Char → Bool) (s : List Char) (i : Nat) : Nat :=
  match h : s[i]? with
  | none => i
  | some c => if p c then skipWhile p s (i + 1) else i
termination_by s.length - i
decreasing_by
  have := (List.getElem?_eq_some_iff.1 h).1
  omega

/-- The position behind the closing quote of a string on one line, or at the end of the line. A
backslash at the end of the text leads past it. -/
def skipQuoted (s : List Char) (quote : Char) (escapes : Bool) (i : Nat) : Nat :=
  match h : s[i]? with
  | none => i
  | some c =>
    if c = '\n' then i
    else if escapes ∧ c = '\\' then skipQuoted s quote escapes (i + 2)
    else if c = quote then i + 1
    else skipQuoted s quote escapes (i + 1)
termination_by s.length - i
decreasing_by
  all_goals
    have := (List.getElem?_eq_some_iff.1 h).1
    omega

/-- The position behind up to `n` quotes. -/
def skipQuotes (s : List Char) (quote : Char) : Nat → Nat → Nat
  | 0, i => i
  | n + 1, i => if s[i]? = some quote then skipQuotes s quote n (i + 1) else i

/-- The position behind the closing quotes of a string over several lines, or the end of the
text. -/
def skipTripled (s : List Char) (quote : Char) (escapes : Bool) (i : Nat) : Nat :=
  match h : s[i]? with
  | none => s.length
  | some c =>
    if escapes ∧ c = '\\' then skipTripled s quote escapes (i + 2)
    else if [quote, quote, quote].isPrefixOf (s.drop i) then skipQuotes s quote 2 (i + 3)
    else skipTripled s quote escapes (i + 1)
termination_by s.length - i
decreasing_by
  all_goals
    have := (List.getElem?_eq_some_iff.1 h).1
    omega

/-- Where the piece ends that starts at a position with a character. -/
def pieceEnd (s : List Char) (i : Nat) (c : Char) : Nat :=
  if c = '#' then skipWhile (· != '\n') s i
  else if c = '"' ∨ c = '\'' then
    if [c, c, c].isPrefixOf (s.drop i) then skipTripled s c (c == '"') (i + 3)
    else skipQuoted s c (c == '"') (i + 1)
  else if isDelimiter c then i + 1
  else skipWhile (fun c => !isDelimiter c) s (i + 1)

/-! ## The loop -/

/-- The characters from one position up to another. -/
def slice (s : List Char) (i j : Nat) : List Char := (s.drop i).take (j - i)

/-- Whether a piece is a bare token. -/
def isBare (piece : List Char) : Bool := piece.all fun c => !isDelimiter c

/-- Whether a piece is wrapped: it is a bare token and a float. -/
def isWrapped (piece : List Char) : Bool := isBare piece && isFloatToken piece

/-- The part of a wrapper in front of its token. -/
def opening : List Char := "\"\\uE000toml-float:".toList

/-- What is written for a piece: a bare token that is a float in a wrapper, and all else as it
is. -/
def wrap (piece : List Char) : List Char :=
  if isWrapped piece then opening ++ piece ++ ['"'] else piece

/-- Takes the wrapper off. -/
def unwrap (written : List Char) : List Char := (written.drop opening.length).dropLast

/-- Where the loop is, and what it has written. -/
structure Scan where
  position : Nat
  output : List Char

/-- One step of the loop, where it is not at the end of the text. -/
def step (s : List Char) (scan : Scan) (h : scan.position < s.length) : Scan :=
  let next := pieceEnd s scan.position s[scan.position]
  ⟨next, scan.output ++ wrap (slice s scan.position next)⟩

variable {s : List Char} {i j : Nat} {c quote : Char} {escapes : Bool}

theorem drop_of_getElem? (h : s[i]? = some c) : s.drop i = c :: s.drop (i + 1) := by
  obtain ⟨hi, rfl⟩ := List.getElem?_eq_some_iff.1 h
  exact List.drop_eq_getElem_cons hi

theorem drop_of_getElem?_none (h : s[i]? = none) : s.drop i = [] :=
  List.drop_eq_nil_of_le (List.getElem?_eq_none_iff.1 h)

/-! ## A step advances -/

theorem le_skipWhile (p : Char → Bool) (s : List Char) (i : Nat) : i ≤ skipWhile p s i := by
  fun_induction skipWhile p s i <;> omega

theorem le_skipQuoted (s : List Char) (quote : Char) (escapes : Bool) (i : Nat) :
    i ≤ skipQuoted s quote escapes i := by
  fun_induction skipQuoted s quote escapes i <;> omega

theorem le_skipQuotes (s : List Char) (quote : Char) (n i : Nat) :
    i ≤ skipQuotes s quote n i := by
  fun_induction skipQuotes s quote n i <;> omega

/-- The end of a string over several lines may lie in front of the position that a backslash at the
end of the text led to, but not in front of the end of the text. -/
theorem le_skipTripled (s : List Char) (quote : Char) (escapes : Bool) (i : Nat) :
    min i s.length ≤ skipTripled s quote escapes i := by
  fun_induction skipTripled s quote escapes i with
  | case1 i h => exact Nat.min_le_right _ _
  | case2 i c h hescape ih => omega
  | case3 i c h hescape hfence =>
    have := le_skipQuotes s quote 2 (i + 3)
    omega
  | case4 i c h hescape hfence ih => omega

/-- Three quotes at a position are three characters. -/
theorem length_of_fence (h : [quote, quote, quote].isPrefixOf (s.drop i) = true) :
    i + 3 ≤ s.length := by
  have hlength := (List.isPrefixOf_iff_prefix.1 h).length_le
  simp only [List.length_cons, List.length_nil, List.length_drop] at hlength
  omega

theorem skipWhile_of_pos {p : Char → Bool} (h : s[i]? = some c) (hc : p c = true) :
    skipWhile p s i = skipWhile p s (i + 1) := by
  rw [skipWhile]
  split
  · rename_i hnone
    rw [h] at hnone
    cases hnone
  · rename_i x hx
    obtain rfl : c = x := Option.some.inj (h.symm.trans hx)
    rw [if_pos hc]

/-- Every piece has a character at least. -/
theorem lt_pieceEnd (h : s[i]? = some c) : i < pieceEnd s i c := by
  unfold pieceEnd
  split
  · rename_i hc
    rw [skipWhile_of_pos h (by rw [hc]; rfl)]
    exact le_skipWhile _ s (i + 1)
  · split
    · split
      · rename_i hfence
        have := length_of_fence hfence
        have := le_skipTripled s c (c == '"') (i + 3)
        omega
      · exact le_skipQuoted s c (c == '"') (i + 1)
    · split
      · exact Nat.lt_succ_self i
      · exact le_skipWhile _ s (i + 1)

/-! ## What is behind a piece -/

theorem drop_skipWhile (p : Char → Bool) (s : List Char) (i : Nat) :
    s.drop (skipWhile p s i) = (s.drop i).dropWhile p := by
  fun_induction skipWhile p s i with
  | case1 i h => rw [drop_of_getElem?_none h, List.dropWhile_nil]
  | case2 i c h hp ih => rw [ih, drop_of_getElem? h, List.dropWhile_cons_of_pos hp]
  | case3 i c h hp => rw [drop_of_getElem? h, List.dropWhile_cons_of_neg hp]

theorem snd_cutLine (s : List Char) : (cutLine s).2 = s.dropWhile (· != '\n') := by
  fun_induction cutLine s <;> simp_all [grow]

theorem snd_cutToken (s : List Char) : (cutToken s).2 = s.dropWhile fun c => !isDelimiter c := by
  fun_induction cutToken s <;> simp_all [grow]

/-- A backslash takes the next character with it, if there is one. -/
theorem snd_cutQuoted_taken (s : List Char) :
    (cutQuoted quote escapes true s).2 = (cutQuoted quote escapes false s.tail).2 := by
  cases s <;> rfl

theorem snd_cutTripled_taken (s : List Char) :
    (cutTripled quote escapes true s).2 = (cutTripled quote escapes false s.tail).2 := by
  cases s <;> rfl

theorem drop_skipQuoted (s : List Char) (quote : Char) (escapes : Bool) (i : Nat) :
    s.drop (skipQuoted s quote escapes i) = (cutQuoted quote escapes false (s.drop i)).2 := by
  fun_induction skipQuoted s quote escapes i with
  | case1 i h => rw [drop_of_getElem?_none h]; rfl
  | case2 i h => rw [drop_of_getElem? h]; rfl
  | case3 i c h hn hescape ih =>
    rw [ih, drop_of_getElem? h, cutQuoted, if_neg Bool.false_ne_true, if_neg hn, if_pos hescape,
      grow, snd_cutQuoted_taken, List.tail_drop]
  | case4 i h hn hescape =>
    rw [drop_of_getElem? h, cutQuoted, if_neg Bool.false_ne_true, if_neg hn, if_neg hescape,
      if_pos rfl]
  | case5 i c h hn hescape hquote ih =>
    rw [ih, drop_of_getElem? h, cutQuoted, if_neg Bool.false_ne_true, if_neg hn, if_neg hescape,
      if_neg hquote, grow]

theorem drop_skipQuotes (s : List Char) (quote : Char) (n i : Nat) :
    s.drop (skipQuotes s quote n i) = (cutQuotes quote n (s.drop i)).2 := by
  fun_induction skipQuotes s quote n i with
  | case1 i => cases s.drop i <;> rfl
  | case2 n i h ih => rw [ih, drop_of_getElem? h, cutQuotes, if_pos rfl, grow]
  | case3 n i h =>
    cases hdrop : s[i]? with
    | none => rw [drop_of_getElem?_none hdrop]; rfl
    | some c =>
      have hc : c ≠ quote := fun hc => h (by rw [hdrop, hc])
      rw [drop_of_getElem? hdrop, cutQuotes, if_neg hc]

theorem drop_skipTripled (s : List Char) (quote : Char) (escapes : Bool) (i : Nat) :
    s.drop (skipTripled s quote escapes i) = (cutTripled quote escapes false (s.drop i)).2 := by
  fun_induction skipTripled s quote escapes i with
  | case1 i h => rw [drop_of_getElem?_none h, List.drop_length]; rfl
  | case2 i c h hescape ih =>
    rw [ih, drop_of_getElem? h, cutTripled, if_neg Bool.false_ne_true, if_pos hescape, grow,
      snd_cutTripled_taken, List.tail_drop]
  | case3 i c h hescape hfence =>
    obtain ⟨rest, hrest⟩ := List.isPrefixOf_iff_prefix.1 hfence
    have hbehind : s.drop (i + 3) = rest := by rw [← List.drop_drop, ← hrest]; rfl
    rw [drop_skipQuotes, hbehind]
    rw [drop_of_getElem? h] at hfence hrest ⊢
    rw [cutTripled, if_neg Bool.false_ne_true, if_neg hescape, if_pos hfence, ← hrest]
    simp [cutQuotes, grow]
  | case4 i c h hescape hfence ih =>
    rw [drop_of_getElem? h] at hfence
    rw [ih, drop_of_getElem? h, cutTripled, if_neg Bool.false_ne_true, if_neg hescape,
      if_neg hfence, grow]

/-! ## Pieces at positions -/

/-- What follows the piece at a position stands behind its end. -/
theorem snd_firstPiece (h : s[i]? = some c) :
    (firstPiece c (s.drop (i + 1))).2 = s.drop (pieceEnd s i c) := by
  unfold firstPiece pieceEnd
  by_cases hcomment : c = '#'
  · rw [if_pos hcomment, if_pos hcomment, skipWhile_of_pos h (by rw [hcomment]; rfl),
      drop_skipWhile, snd_cutLine]
  rw [if_neg hcomment, if_neg hcomment]
  by_cases hquote : c = '"' ∨ c = '\''
  · have hfence : [c, c, c].isPrefixOf (s.drop i) = [c, c].isPrefixOf (s.drop (i + 1)) := by
      rw [drop_of_getElem? h, List.isPrefixOf_cons_cons, beq_self_eq_true, Bool.true_and]
    rw [if_pos hquote, if_pos hquote, cutString, hfence]
    split
    · rw [drop_skipTripled, List.drop_drop]
    · rw [drop_skipQuoted]
  rw [if_neg hquote, if_neg hquote]
  split
  · rfl
  · rw [drop_skipWhile, snd_cutToken]

theorem eq_slice {a : List Char} (hij : i ≤ j) (h : a ++ s.drop j = s.drop i) :
    a = slice s i j := by
  have hcut : slice s i j ++ s.drop j = s.drop i := by
    have hdrop : s.drop j = (s.drop i).drop (j - i) := by
      rw [List.drop_drop, Nat.add_sub_cancel' hij]
    rw [slice, hdrop, List.take_append_drop]
  exact List.append_cancel_right (h.trans hcut.symm)

/-- The piece at a position goes up to its end. -/
theorem source_firstPiece (h : s[i]? = some c) :
    (firstPiece c (s.drop (i + 1))).1.source = slice s i (pieceEnd s i c) := by
  refine eq_slice (Nat.le_of_lt (lt_pieceEnd h)) ?_
  rw [← snd_firstPiece h, firstPiece_append, drop_of_getElem? h]

theorem isBare_token (s : List Char) : isBare (cutToken s).1 = true := by
  fun_induction cutToken s <;> simp_all [grow, isBare]

theorem wrap_of_delimiter (h : isDelimiter c = true) (s : List Char) : wrap (c :: s) = c :: s := by
  rw [wrap, isWrapped, isBare, List.all_cons, h]
  rfl

/-- A piece is wrapped if it is a bare token that is a float, and copied if not. -/
theorem marked_firstPiece (c : Char) (s : List Char) :
    (firstPiece c s).1.marked = wrap (firstPiece c s).1.source := by
  unfold firstPiece
  split
  · rename_i hc
    exact (wrap_of_delimiter (by rw [hc]; decide) _).symm
  · split
    · rename_i hc
      exact (wrap_of_delimiter (by rcases hc with rfl | rfl <;> decide) _).symm
    · split
      · rename_i hc
        exact (wrap_of_delimiter hc _).symm
      · rename_i hc
        have hbare : isBare (c :: (cutToken s).1) = true := by
          rw [isBare, List.all_cons, ← isBare, isBare_token]
          simpa using hc
        rw [Piece.source_ofToken, wrap, isWrapped, hbare, Bool.true_and, Piece.ofToken]
        split <;> rfl

/-! ## The whole loop -/

/-- A step advances. -/
theorem lt_position_step (s : List Char) (scan : Scan) (h : scan.position < s.length) :
    scan.position < (step s scan h).position := lt_pieceEnd (List.getElem?_eq_getElem h)

/-- The loop, from where it is to the end of the text. -/
def scanFrom (s : List Char) (scan : Scan) : Scan :=
  if h : scan.position < s.length then scanFrom s (step s scan h) else scan
termination_by s.length - scan.position
decreasing_by
  have := lt_position_step s scan h
  omega

/-- The texts that the loop takes, one in each step. -/
def cuts (s : List Char) (i : Nat) : List (List Char) :=
  if h : i < s.length then
    slice s i (pieceEnd s i s[i]) :: cuts s (pieceEnd s i s[i])
  else []
termination_by s.length - i
decreasing_by
  have := lt_pieceEnd (List.getElem?_eq_getElem h)
  omega

/-- The loop ends behind the text, with what it took written, wrapped or copied. -/
theorem scanFrom_eq (s : List Char) (scan : Scan) :
    s.length ≤ (scanFrom s scan).position ∧
    (scanFrom s scan).output = scan.output ++ (cuts s scan.position).flatMap wrap := by
  fun_induction scanFrom s scan with
  | case1 scan h ih =>
    rw [cuts, dif_pos h, List.flatMap_cons, ← List.append_assoc]
    exact ih
  | case2 scan h =>
    rw [cuts, dif_neg h]
    exact ⟨Nat.le_of_not_lt h, (List.append_nil _).symm⟩

/-- What the loop takes are the pieces of the text. -/
theorem map_source_pieces (s : List Char) (i : Nat) :
    (pieces (s.drop i)).map Piece.source = cuts s i := by
  fun_induction cuts s i with
  | case1 i h ih =>
    have hc := List.getElem?_eq_getElem h
    rw [drop_of_getElem? hc, pieces, List.map_cons, source_firstPiece hc, snd_firstPiece hc, ih]
  | case2 i h =>
    rw [List.drop_eq_nil_of_le (Nat.le_of_not_lt h), pieces]
    rfl

theorem marked_of_mem_pieces {p : Piece} (h : p ∈ pieces s) : p.marked = wrap p.source := by
  induction s using pieces.induct with
  | case1 => simp [pieces] at h
  | case2 c s ih =>
    rw [pieces] at h
    rcases List.mem_cons.1 h with rfl | h
    · exact marked_firstPiece c s
    · exact ih h

/-- Marking writes what the loop takes, wrapped or copied. -/
theorem mark_eq (s : List Char) : mark s = (cuts s 0).flatMap wrap := by
  rw [← map_source_pieces, List.drop_zero, List.flatMap_map, mark]
  exact List.flatMap_congr fun p hp => marked_of_mem_pieces hp

/-- The loop takes the whole text, in its order. -/
theorem flatten_cuts (s : List Char) : (cuts s 0).flatten = s := by
  rw [← map_source_pieces, List.drop_zero, ← List.flatMap_def, flatMap_source_pieces]

/-! ## Bare tokens -/

theorem not_of_skipWhile {p : Char → Bool} (h : s[skipWhile p s i]? = some c) : p c = false := by
  fun_induction skipWhile p s i with
  | case1 i hnone =>
    rw [hnone] at h
    cases h
  | case2 i x hx hp ih => exact ih h
  | case3 i x hx hp =>
    obtain rfl : x = c := Option.some.inj (hx.symm.trans h)
    simpa using hp

theorem head?_slice (h : s[i]? = some c) (hij : i < j) : (slice s i j).head? = some c := by
  rw [slice, List.head?_take, if_neg (by omega), drop_of_getElem? h, List.head?_cons]

/-- A bare token goes up to a delimiter or to the end of the text. -/
theorem isDelimiter_behind {d : Char} (h : s[i]? = some c)
    (hbare : isBare (slice s i (pieceEnd s i c)) = true) (hd : s[pieceEnd s i c]? = some d) :
    isDelimiter d = true := by
  have hmem : c ∈ slice s i (pieceEnd s i c) :=
    List.mem_of_mem_head? (head?_slice h (lt_pieceEnd h))
  have hc : isDelimiter c = false := by simpa using List.all_eq_true.1 hbare c hmem
  have hne : c ≠ '#' ∧ c ≠ '"' ∧ c ≠ '\'' := by
    refine ⟨?_, ?_, ?_⟩ <;> (rintro rfl; revert hc; decide)
  rw [pieceEnd, if_neg hne.1, if_neg (by simp [hne.2]), if_neg (by simp [hc])] at hd
  simpa using not_of_skipWhile hd

theorem head?_cuts (s : List Char) (i : Nat) :
    (cuts s i).head? = s[i]?.map fun c => slice s i (pieceEnd s i c) := by
  rw [cuts]
  split
  · rename_i h
    rw [List.getElem?_eq_getElem h]
    rfl
  · rename_i h
    rw [List.getElem?_eq_none (Nat.le_of_not_lt h)]
    rfl

/-- No bare token runs on into what is taken next. -/
theorem isChain_cuts (s : List Char) (i : Nat) :
    (cuts s i).IsChain fun p q => isBare p = true → ∀ d ∈ q.head?, isDelimiter d = true := by
  fun_induction cuts s i with
  | case1 i h ih =>
    refine List.isChain_cons.2 ⟨fun q hq hbare d hd => ?_, ih⟩
    have hc := List.getElem?_eq_getElem h
    rw [head?_cuts] at hq
    obtain ⟨x, hx, rfl⟩ := Option.map_eq_some_iff.1 hq
    rw [head?_slice hx (lt_pieceEnd hx)] at hd
    obtain rfl : x = d := Option.some.inj hd
    exact isDelimiter_behind hc hbare hx
  | case2 i h => exact .nil

theorem ne_nil_of_mem_cuts {p : List Char} (h : p ∈ cuts s i) : p ≠ [] := by
  fun_induction cuts s i with
  | case1 i hi ih =>
    rcases List.mem_cons.1 h with rfl | h
    · have hc := List.getElem?_eq_getElem hi
      intro hnil
      have hhead := head?_slice hc (lt_pieceEnd hc)
      rw [hnil] at hhead
      cases hhead
    · exact ih h
  | case2 i hi => cases h

/-! ## Wrappers -/

theorem unwrap_wrap {p : List Char} (h : isWrapped p = true) : unwrap (wrap p) = p := by
  rw [wrap, if_pos h, unwrap, List.append_assoc, List.drop_left, List.dropLast_concat]

theorem length_le_wrap (p : List Char) : p.length ≤ (wrap p).length := by
  rw [wrap]
  split
  · simp only [List.length_append]
    omega
  · exact Nat.le_refl _

theorem length_flatten_le (ps : List (List Char)) :
    ps.flatten.length ≤ (ps.flatMap wrap).length := by
  induction ps with
  | nil => exact Nat.le_refl 0
  | cons p ps ih =>
    rw [List.flatten_cons, List.flatMap_cons, List.length_append, List.length_append]
    exact Nat.add_le_add (length_le_wrap p) ih

/-- Wrapping changes a text unless nothing of it is wrapped. -/
theorem flatMap_wrap_eq_iff (ps : List (List Char)) :
    ps.flatMap wrap = ps.flatten ↔ ∀ p ∈ ps, isWrapped p = false := by
  induction ps with
  | nil => simp
  | cons p ps ih =>
    rw [List.flatMap_cons, List.flatten_cons, List.forall_mem_cons, ← ih]
    cases hp : isWrapped p with
    | false => simp [wrap, hp]
    | true =>
      refine ⟨fun h => ?_, fun h => nomatch h.1⟩
      have hlength := congrArg List.length h
      have := length_flatten_le ps
      simp only [wrap, hp, if_true, List.length_append, List.length_singleton] at hlength
      omega

/-- **The scanner loses nothing, whatever the text is.** Each step of the loop advances, so the loop
ends, at the end of the text or past it, and what it has written is the marked text. What it takes
in its steps is the text, piece by piece in order and none of them empty; a bare token goes up to
the next delimiter. Every piece is written as it is but for the bare tokens that are floats, each
of which is written in a wrapper. Taking these wrappers off gives the text back, and the marked text
is the text itself exactly if there are none. -/
theorem scanner_covers (s : List Char) :
    (∀ scan h, scan.position < (step s scan h).position) ∧
    s.length ≤ (scanFrom s ⟨0, []⟩).position ∧ (scanFrom s ⟨0, []⟩).output = mark s ∧
    ((cuts s 0).flatten = s ∧ [] ∉ cuts s 0 ∧
      (cuts s 0).IsChain fun p q => isBare p = true → ∀ d ∈ q.head?, isDelimiter d = true) ∧
    mark s = (cuts s 0).flatMap wrap ∧
    ((cuts s 0).flatMap fun p => if isWrapped p then unwrap (wrap p) else wrap p) = s ∧
    (mark s = s ↔ ∀ p ∈ cuts s 0, isWrapped p = false) := by
  obtain ⟨hend, houtput⟩ := scanFrom_eq s ⟨0, []⟩
  have hunwrap : ∀ p, (if isWrapped p then unwrap (wrap p) else wrap p) = p := by
    intro p
    split
    · exact unwrap_wrap ‹_›
    · rw [wrap, if_neg ‹_›]
  refine ⟨lt_position_step s, hend, by rw [houtput, mark_eq]; rfl,
    ⟨flatten_cuts s, fun h => ne_nil_of_mem_cuts h rfl, isChain_cuts s 0⟩, mark_eq s, ?_, ?_⟩
  · simp only [hunwrap]
    rw [List.flatMap_id', flatten_cuts]
  · have hiff := flatMap_wrap_eq_iff (cuts s 0)
    rwa [← mark_eq, flatten_cuts] at hiff

end WakeConfig.Toml.FloatLiteral
