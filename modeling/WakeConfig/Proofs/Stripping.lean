import WakeConfig.Proofs.Json.Scalars
import WakeConfig.Terminal.Report

/-!
# Stripping codes

`Strips` says what it is to strip a text: wherever a code stands it is removed, from the left, and
every other character is kept. `stripCodes` does that and nothing else (`strips_iff`). No code goes
on past a character that cannot stand in one, so stripping a text in front of such a character is
done by itself (`stripCodes_append`), and what a display adds to a report for its colors is all that
stripping takes from it but for the codes in the texts of the report (`strip_text`).
-/

namespace WakeConfig
namespace Display

variable {a b s t numbers held : List Char} {c : Char}

/-! ## What stripping is -/

/-- Numbers with semicolons between them, as they stand in a code. -/
def AreParameters (numbers : List Char) : Prop := ∀ c ∈ numbers, isParameter c = true

/-- A text starts with a code. -/
def StartsWithCode (s : List Char) : Prop :=
  ∃ numbers rest, AreParameters numbers ∧ s = codeOf numbers ++ rest

/-- Stripping the first text leaves the second: a code is removed where one stands, and any other
character is kept. -/
inductive Strips : List Char → List Char → Prop where
  | nil : Strips [] []
  | code {numbers s t : List Char} :
      AreParameters numbers → Strips s t → Strips (codeOf numbers ++ s) t
  | keep {c : Char} {s t : List Char} :
      ¬ StartsWithCode (c :: s) → Strips s t → Strips (c :: s) (c :: t)

/-! ## Removing a code -/

theorem ne_of_isParameter (h : isParameter c = true) : c ≠ escape ∧ c ≠ '[' ∧ c ≠ 'm' := by
  refine ⟨?_, ?_, ?_⟩ <;> (rintro rfl; revert h; decide)

/-- What is held back goes up to the bracket of a code or further. -/
def IsOpen (held : List Char) : Prop := held ≠ [] ∧ held ≠ [escape]

theorem IsOpen.cons (h : IsOpen held) (c : Char) : IsOpen (c :: held) :=
  ⟨List.cons_ne_nil c held, fun heq => h.1 (List.cons.inj heq).2⟩

/-- Behind the bracket a parameter is held back. -/
theorem stripFrom_parameter (ho : IsOpen held) (hc : isParameter c = true) (s : List Char) :
    stripFrom held (c :: s) = stripFrom (c :: held) s := by
  rw [stripFrom, if_neg (ne_of_isParameter hc).1, if_neg ho.1, if_neg ho.2, if_pos hc]

/-- What was held back is dropped at the end of its code. -/
theorem stripFrom_numbers (ho : IsOpen held) (hn : AreParameters numbers) (s : List Char) :
    stripFrom held (numbers ++ 'm' :: s) = stripCodes s := by
  induction numbers generalizing held with
  | nil =>
    rw [List.nil_append, stripFrom, if_neg (by decide), if_neg ho.1, if_neg ho.2,
      if_neg (by decide), if_pos rfl, stripCodes]
  | cons c numbers ih =>
    obtain ⟨hc, hrest⟩ := List.forall_mem_cons.1 hn
    rw [List.cons_append, stripFrom_parameter ho hc, ih (ho.cons c) hrest]

theorem stripFrom_bracket (s : List Char) :
    stripCodes (escape :: '[' :: s) = stripFrom ['[', escape] s := by
  simp [stripCodes, stripFrom, escape]

theorem isOpen_bracket : IsOpen ['[', escape] := ⟨List.cons_ne_nil _ _, by decide⟩

/-- Nothing is left of a code. -/
theorem stripCodes_code (hn : AreParameters numbers) (s : List Char) :
    stripCodes (codeOf numbers ++ s) = stripCodes s := by
  have hcode : codeOf numbers ++ s = escape :: '[' :: (numbers ++ 'm' :: s) := by simp [codeOf]
  rw [hcode, stripFrom_bracket, stripFrom_numbers isOpen_bracket hn]

/-! ## Keeping a character -/

theorem stripCodes_cons_of_ne (hc : c ≠ escape) (s : List Char) :
    stripCodes (c :: s) = c :: stripCodes s := by
  rw [stripCodes, stripFrom, if_neg hc, if_pos rfl, stripCodes]

/-- What was held back is kept where its code is not completed. -/
theorem stripFrom_incomplete (ho : IsOpen held)
    (hs : ∀ numbers rest, AreParameters numbers → s ≠ numbers ++ 'm' :: rest) :
    stripFrom held s = held.reverse ++ stripCodes s := by
  induction s generalizing held with
  | nil => exact (List.append_nil _).symm
  | cons c s ih =>
    by_cases hescape : c = escape
    · rw [stripFrom, if_pos hescape, stripCodes, stripFrom, if_pos hescape, List.reverse_nil,
        List.nil_append]
    · rw [stripCodes_cons_of_ne hescape]
      cases hc : isParameter c with
      | true =>
        have hrest : ∀ numbers rest, AreParameters numbers → s ≠ numbers ++ 'm' :: rest := by
          rintro numbers rest hn rfl
          exact hs (c :: numbers) rest (List.forall_mem_cons.2 ⟨hc, hn⟩) rfl
        rw [stripFrom_parameter ho hc, ih (ho.cons c) hrest, List.reverse_cons, List.append_assoc,
          List.singleton_append]
      | false =>
        have hm : c ≠ 'm' := fun hm => hs [] s (List.forall_mem_nil _) (by rw [hm]; rfl)
        rw [stripFrom, if_neg hescape, if_neg ho.1, if_neg ho.2, if_neg (by simp [hc]), if_neg hm,
          stripCodes]

/-- A character at which no code starts is kept. -/
theorem stripCodes_keep (h : ¬ StartsWithCode (c :: s)) :
    stripCodes (c :: s) = c :: stripCodes s := by
  by_cases hescape : c = escape
  · subst hescape
    cases s with
    | nil => rfl
    | cons d s =>
      by_cases hd : d = escape
      · simp [hd, stripCodes, stripFrom]
      · rw [stripCodes_cons_of_ne hd]
        by_cases hbracket : d = '['
        · subst hbracket
          rw [stripFrom_bracket, stripFrom_incomplete isOpen_bracket]
          · rfl
          · rintro numbers rest hn rfl
            exact h ⟨numbers, rest, hn, by simp [codeOf]⟩
        · simp [stripCodes, stripFrom, hd, hbracket]
  · exact stripCodes_cons_of_ne hescape s

/-- A text without an escape character is kept in front of any other. -/
theorem stripCodes_plain_append (h : escape ∉ a) (b : List Char) :
    stripCodes (a ++ b) = a ++ stripCodes b := by
  induction a with
  | nil => rfl
  | cons c a ih =>
    simp only [List.mem_cons, not_or] at h
    rw [List.cons_append, stripCodes_cons_of_ne (Ne.symm h.1), ih h.2, List.cons_append]

/-! ## Stripping is what it should be -/

theorem strips_stripCodes (s : List Char) : Strips s (stripCodes s) := by
  by_cases hs : StartsWithCode s
  · obtain ⟨numbers, rest, hn, heq⟩ := hs
    have hlength : rest.length < s.length := by
      simp only [heq, codeOf, List.length_append, List.length_cons]
      omega
    rw [heq, stripCodes_code hn]
    exact .code hn (strips_stripCodes rest)
  · cases s with
    | nil => exact .nil
    | cons c s =>
      rw [stripCodes_keep hs]
      exact .keep hs (strips_stripCodes s)
termination_by s.length

/-- There is one way to strip a text. -/
theorem Strips.eq_stripCodes (h : Strips s t) : stripCodes s = t := by
  induction h with
  | nil => rfl
  | code hn _ ih => rw [stripCodes_code hn, ih]
  | keep hc _ ih => rw [stripCodes_keep hc, ih]

/-- `stripCodes` removes the codes of a text from the left, and keeps all else. -/
theorem strips_iff : Strips s t ↔ stripCodes s = t :=
  ⟨Strips.eq_stripCodes, fun h => h ▸ strips_stripCodes s⟩

/-! ## Texts side by side -/

/-- Whether a character ends every code that was begun in front of it: it can stand in a code only
as the first character. -/
def breaks (c : Char) : Bool := !isParameter c && c != '[' && c != 'm'

/-- No character of a code but the first breaks one. -/
theorem not_breaks_of_mem_code (hn : AreParameters numbers) (hc : c ∈ '[' :: (numbers ++ ['m'])) :
    breaks c = false := by
  simp only [List.mem_cons, List.mem_append, List.not_mem_nil, or_false] at hc
  rcases hc with rfl | hc | rfl
  · decide
  · simp [breaks, hn c hc]
  · decide

/-- A code in front of a break lies in front of it wholly. -/
theorem startsWithCode_of_append (hb : ∀ x ∈ b.head?, breaks x = true)
    (h : StartsWithCode (c :: a ++ b)) : StartsWithCode (c :: a) := by
  obtain ⟨numbers, rest, hn, hsplit⟩ := h
  rw [codeOf, List.cons_append, List.cons_append] at hsplit
  obtain ⟨rfl, htail⟩ := List.cons.inj hsplit
  rcases List.append_eq_append_iff.1 htail with ⟨more, hcode, hmore⟩ | ⟨more, ha, -⟩
  · -- the code ends behind the break, unless nothing of it is left there
    cases more with
    | nil => exact ⟨numbers, [], hn, by simpa [codeOf] using hcode.symm⟩
    | cons x more =>
      rw [hmore] at hb
      have hx : x ∈ '[' :: (numbers ++ ['m']) := by
        rw [hcode]
        simp
      exact absurd (hb x rfl) (by simp [not_breaks_of_mem_code hn hx])
  · exact ⟨numbers, more, hn, by rw [ha]; rfl⟩

/-- **Texts on both sides of a break are stripped by themselves**, whatever codes they hold and
wherever a code in the first of them is cut off. -/
theorem stripCodes_append (a : List Char) (hb : ∀ c ∈ b.head?, breaks c = true) :
    stripCodes (a ++ b) = stripCodes a ++ stripCodes b := by
  have ha := strips_stripCodes a
  generalize stripCodes a = stripped at ha ⊢
  induction ha with
  | nil => rfl
  | code hn _ ih => rw [List.append_assoc, stripCodes_code hn, ih]
  | @keep c a stripped hc _ ih =>
    have hnone : ¬ StartsWithCode (c :: (a ++ b)) := fun h => hc (startsWithCode_of_append hb h)
    rw [List.cons_append, stripCodes_keep hnone, ih, List.cons_append]

/-! ## Strings -/

/-- A string is empty or starts with a break. -/
def StartsApart (s : String) : Prop := ∀ c ∈ s.toList.head?, breaks c = true

variable {u v : String} {d : Display}

theorem startsApart_empty : StartsApart "" := nofun

theorem startsApart_append (hu : u.toList.head? = some c) (hc : breaks c = true) (v : String) :
    StartsApart (u ++ v) := by
  intro x hx
  rw [String.toList_append, List.head?_append, hu] at hx
  obtain rfl : c = x := Option.some.inj hx
  exact hc

theorem strip_append (u : String) (hv : StartsApart v) : strip (u ++ v) = strip u ++ strip v := by
  simp only [strip, String.toList_append, stripCodes_append _ hv, String.ofList_append]

theorem strip_plain_append (h : escape ∉ u.toList) (v : String) :
    strip (u ++ v) = u ++ strip v := by
  simp only [strip, String.toList_append, stripCodes_plain_append h, String.ofList_append,
    String.ofList_toList]

theorem strip_plain (h : escape ∉ u.toList) : strip u = u := by
  rw [strip, stripCodes_of_plain h, String.ofList_toList]

theorem strip_code_append (hn : AreParameters numbers) (v : String) :
    strip (String.ofList (codeOf numbers) ++ v) = strip v := by
  simp only [strip, String.toList_append, String.toList_ofList, stripCodes_code hn]

theorem areParameters_styleNumber (style : TextStyle) : AreParameters (styleNumber style) := by
  cases style <;> exact List.all_eq_true.1 rfl

theorem areParameters_plainNumber : AreParameters plainNumber := List.all_eq_true.1 rfl

/-- A style leaves nothing when its text is stripped. -/
theorem strip_styled_append (d : Display) (style : TextStyle) (u : String) (hv : StartsApart v) :
    strip (d.styled style u ++ v) = strip u ++ strip v := by
  rw [styled]
  split
  · have hreset : StartsApart (String.ofList (codeOf plainNumber) ++ v) :=
      startsApart_append rfl rfl v
    rw [String.append_assoc, String.append_assoc,
      strip_code_append (areParameters_styleNumber style), strip_append u hreset,
      strip_code_append areParameters_plainNumber]
  · exact strip_append u hv

/-- A display without colors. -/
def plain (d : Display) : Display := { d with colors := false }

@[simp] theorem styled_plain (d : Display) (style : TextStyle) (u : String) :
    d.plain.styled style u = u := rfl

end Display

/-! ## Reports -/

/-- A suggestion without an escape character. -/
def Suggestion.IsPlain (s : Suggestion) : Prop :=
  Display.escape ∉ s.text.toList ∧ ∀ action ∈ s.action?, Display.escape ∉ action.toList

namespace Report

open Display (strip StartsApart)

variable {d : Display} {rest label : String}

/-- A report with the codes stripped from its texts. -/
def stripped (r : Report) : Report :=
  ⟨strip r.message, r.type, r.path?.map strip, r.variableName?.map strip⟩

theorem startsApart_detail (d : Display) (label : String) (name? : Option String)
    (hrest : StartsApart rest) : StartsApart (detail d label name? ++ rest) := by
  cases name? with
  | none => simpa [detail] using hrest
  | some name =>
    simp only [detail, String.append_assoc]
    exact Display.startsApart_append rfl rfl _

/-- A line that names something: its label stays, and the name is stripped. -/
theorem strip_detail_append (d : Display) (hlabel : Display.escape ∉ label.toList)
    (name? : Option String) (hrest : StartsApart rest) :
    strip (detail d label name? ++ rest)
      = detail d.plain label (name?.map strip) ++ strip rest := by
  cases name? with
  | none => simp [detail]
  | some name =>
    have hspace : StartsApart (" " ++ (name ++ rest)) := Display.startsApart_append rfl rfl _
    simp only [detail, Option.map_some, String.append_assoc, Display.styled_plain]
    rw [Display.strip_plain_append (by decide), Display.strip_styled_append _ _ _ hspace,
      Display.strip_plain hlabel, Display.strip_plain_append (by decide),
      Display.strip_append _ hrest]

theorem escape_not_mem_numbering (n : Nat) : Display.escape ∉ (toString n ++ ".").toList := by
  rw [String.toList_append, Nat.toString_eq_ofList_toDigits, String.toList_ofList]
  intro h
  rcases List.mem_append.1 h with h | h
  · exact absurd (Text.isDigit_of_mem_toDigits h) (by decide)
  · exact absurd h (by decide)

/-- The command of a suggestion, on a line of its own. -/
def actionText (d : Display) : Option String → String
  | none => ""
  | some action => "\n    " ++ d.styled .dim action

theorem suggestionText_eq (d : Display) (n : Nat) (s : Suggestion) :
    suggestionText d n s =
      "\n  " ++
        (d.styled .yellow (toString n ++ ".") ++ (" " ++ (s.text ++ actionText d s.action?))) := by
  obtain ⟨text, action?⟩ := s
  cases action? <;> simp [suggestionText, actionText, String.append_assoc]

theorem strip_actionText_append (d : Display) {action? : Option String}
    (h : ∀ action ∈ action?, Display.escape ∉ action.toList) (hrest : StartsApart rest) :
    strip (actionText d action? ++ rest) = actionText d.plain action? ++ strip rest := by
  cases action? with
  | none => simp [actionText]
  | some action =>
    rw [actionText, actionText, String.append_assoc, Display.styled_plain,
      Display.strip_plain_append (by decide), Display.strip_styled_append _ _ _ hrest,
      Display.strip_plain (h action rfl), String.append_assoc]

/-- Nothing is stripped from a plain suggestion but its colors. -/
theorem strip_suggestionText_append (d : Display) (n : Nat) {s : Suggestion} (hs : s.IsPlain)
    (hrest : StartsApart rest) :
    strip (suggestionText d n s ++ rest) = suggestionText d.plain n s ++ strip rest := by
  have hspace : StartsApart (" " ++ (s.text ++ (actionText d s.action? ++ rest))) :=
    Display.startsApart_append rfl rfl _
  simp only [suggestionText_eq, String.append_assoc, Display.styled_plain]
  rw [Display.strip_plain_append (by decide), Display.strip_styled_append _ _ _ hspace,
    Display.strip_plain (escape_not_mem_numbering n), String.append_assoc,
    Display.strip_plain_append (by decide), Display.strip_plain_append hs.1,
    strip_actionText_append d hs.2 hrest]

theorem startsApart_suggestionTexts (d : Display) (n : Nat) (suggestions : List Suggestion) :
    StartsApart (suggestionTexts d n suggestions) := by
  cases suggestions with
  | nil => exact Display.startsApart_empty
  | cons s suggestions =>
    rw [suggestionTexts, suggestionText_eq, String.append_assoc]
    exact Display.startsApart_append rfl rfl _

theorem strip_suggestionTexts (d : Display) (n : Nat) {suggestions : List Suggestion}
    (h : ∀ s ∈ suggestions, s.IsPlain) :
    strip (suggestionTexts d n suggestions) = suggestionTexts d.plain n suggestions := by
  induction suggestions generalizing n with
  | nil => rfl
  | cons s suggestions ih =>
    obtain ⟨hs, hrest⟩ := List.forall_mem_cons.1 h
    rw [suggestionTexts, suggestionTexts,
      strip_suggestionText_append d n hs (startsApart_suggestionTexts _ _ _), ih _ hrest]

theorem isPlain_suggestions (type : FailureType) : ∀ s ∈ type.suggestions, s.IsPlain := by
  cases type <;> simp only [FailureType.suggestions, Suggestion.IsPlain] <;> decide

/-- The text of a report, stripped, is that of the report without its codes and without colors. -/
theorem strip_text (d : Display) (r : Report) : strip (r.text d) = r.stripped.text d.plain := by
  have hsuggestions := startsApart_suggestionTexts d 1 r.type.suggestions
  have hheading : StartsApart ("\n\n" ++ (d.styled .bold "Suggestions:" ++
      suggestionTexts d 1 r.type.suggestions)) := Display.startsApart_append rfl rfl _
  have hvariable := startsApart_detail d "Variable:" r.variableName? hheading
  have hfile := startsApart_detail d "File:" r.path? hvariable
  have herror : strip "Error:" = "Error:" := Display.strip_plain (by decide)
  have hbold : strip "Suggestions:" = "Suggestions:" := Display.strip_plain (by decide)
  simp only [text, String.append_assoc, Display.styled_plain]
  rw [Display.strip_styled_append _ _ _ (Display.startsApart_append rfl rfl _), herror,
    Display.strip_plain_append (by decide), Display.strip_append _ hfile,
    strip_detail_append d (by decide) _ hvariable, strip_detail_append d (by decide) _ hheading,
    Display.strip_plain_append (by decide), Display.strip_styled_append _ _ _ hsuggestions, hbold,
    strip_suggestionTexts d 1 (isPlain_suggestions r.type)]
  rfl

/-- **Colors change nothing but codes.** Stripping the text of a report leaves the same for every
display: what is left of its message, its file and its variable when these are stripped, wherever a
code in them is cut off, in the text that a report has without colors. And a style leaves nothing
behind when a text in it is stripped: what is left is the text with its own codes removed from the
left, and nothing else. -/
theorem strip_colors (r : Report) :
    (∀ unicode, strip (r.text ⟨true, unicode⟩) = strip (r.text ⟨false, unicode⟩)) ∧
    (∀ d, strip (r.text d) = r.stripped.text d.plain) ∧
    ∀ (d : Display) (style : TextStyle) (text : String), strip (d.styled style text) = strip text ∧
      ∀ t, Display.Strips text.toList t ↔ t = (strip (d.styled style text)).toList := by
  refine ⟨fun unicode => ?_, fun d => strip_text d r, fun d style text => ?_⟩
  · rw [strip_text, strip_text]
    rfl
  · have hstyled := Display.strip_styled_append d style text Display.startsApart_empty
    rw [String.append_empty] at hstyled
    have hempty : strip "" = "" := rfl
    rw [hempty, String.append_empty] at hstyled
    refine ⟨hstyled, fun t => ?_⟩
    rw [hstyled, strip, String.toList_ofList, Display.strips_iff, eq_comm]

end Report
end WakeConfig
