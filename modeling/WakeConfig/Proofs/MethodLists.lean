import WakeConfig.Proofs.StartCommand

/-!
# Lists of join methods

The value of a variable is decoded as a whole before it is split at its commas. Decoding does not
act across a comma, so a list can be read piece by piece: `methodsRead_exact` says that reading
takes a comma between two values to the two lists one after the other, and that every way of
writing methods with letters of either case, blanks and escapes of blanks reads back as these
methods.
-/

namespace WakeConfig

/-! ## Decoding piece by piece -/

namespace Text

variable {c : Char} {p : Char × Char} {s t : List Char}

theorem decodeEscapes_cons_of_ne (hc : c ≠ '\\') (s : List Char) :
    decodeEscapes (c :: s) = c :: decodeEscapes s := by
  have h := decodeEscapes_run hc 0 s
  rwa [decodeRun_of_ne (.inl rfl)] at h

/-- An escape with nothing but itself in front is decoded on its own. -/
theorem decodeEscapes_escape (hp : p ∈ escapeLetters) (s : List Char) :
    decodeEscapes ('\\' :: p.1 :: s) = p.2 :: decodeEscapes s := by
  have h := decodeEscapes_run (apart_escapeLetters.letter p hp) 1 s
  rwa [decodeRun_letter hp] at h

/-- Decoding goes on behind a character that no escape has in it as it would from the start. -/
theorem decodeEscapes_append_cons (hc : c ≠ '\\') (hletter : ∀ p ∈ escapeLetters, c ≠ p.1)
    (s t : List Char) : decodeEscapes (s ++ c :: t) = decodeEscapes s ++ c :: decodeEscapes t := by
  induction s using run_induction with
  | ends k => rw [decodeEscapes_run hc, decodeRun_of_ne (.inr hletter), decodeEscapes_replicate]
  | goesOn k d s hd ih =>
    rw [List.append_assoc, List.cons_append, decodeEscapes_run hd, decodeEscapes_run hd, ih,
      List.append_assoc]

/-- Decoding makes no character but those that escapes stand for. -/
theorem not_mem_decodeEscapes (hc : ∀ p ∈ escapeLetters, p.2 ≠ c) (hs : c ∉ s) :
    c ∉ decodeEscapes s := by
  have hcount := countP_decodeEscapes_le (fun d => d == c)
    (fun p hp hd => absurd (beq_iff_eq.1 hd) (hc p hp)) s
  have hnone : s.countP (fun d => d == c) = 0 := List.count_eq_zero.2 hs
  refine List.count_eq_zero.1 (Nat.eq_zero_of_le_zero ?_)
  rw [← hnone]
  exact hcount

theorem decodeEscapes_append_of_not_mem (hs : '\\' ∉ s) (t : List Char) :
    decodeEscapes (s ++ t) = s ++ decodeEscapes t := by
  induction s with
  | nil => rfl
  | cons c s ih =>
    rw [List.mem_cons, not_or] at hs
    rw [List.cons_append, decodeEscapes_cons_of_ne (Ne.symm hs.1), ih hs.2, List.cons_append]

/-- Written blanks are decoded on their own. -/
theorem WritesBlank.decodeEscapes_append (hs : WritesBlank s) (t : List Char) :
    decodeEscapes (s ++ t) = decodeEscapes s ++ decodeEscapes t := by
  induction hs with
  | nil => rfl
  | @blank c s hc hs ih =>
    have hne : c ≠ '\\' := by
      rintro rfl
      exact absurd hc (by decide)
    rw [List.cons_append, decodeEscapes_cons_of_ne hne, decodeEscapes_cons_of_ne hne, ih,
      List.cons_append]
  | @escape p s hp hs ih =>
    rw [List.cons_append, List.cons_append, decodeEscapes_escape hp, decodeEscapes_escape hp, ih,
      List.cons_append]

/-! ## Letters of either case -/

theorem isAlpha_iff : c.isAlpha = true ↔
    (65 ≤ c.toNat ∧ c.toNat ≤ 90) ∨ (97 ≤ c.toNat ∧ c.toNat ≤ 122) := by
  have hupper : c.isUpper = true ↔ 65 ≤ c.toNat ∧ c.toNat ≤ 90 := decide_eq_true_iff
  have hlower : c.isLower = true ↔ 97 ≤ c.toNat ∧ c.toNat ≤ 122 :=
    Bool.and_eq_true_iff.trans (and_congr decide_eq_true_iff decide_eq_true_iff)
  exact Bool.or_eq_true_iff.trans (or_congr hupper hlower)

theorem not_isBlank_of_isAlpha (h : c.isAlpha = true) : isBlank c = false := by
  rw [isAlpha_iff] at h
  simp only [isBlank, Bool.or_eq_false_iff, Bool.and_eq_false_iff, decide_eq_false_iff_not,
    beq_eq_false_iff_ne]
  omega

/-- A capital is a letter, and no other character has another one as its small letter. -/
theorem isAlpha_of_isAlpha_toLower (h : c.toLower.isAlpha = true) : c.isAlpha = true := by
  by_cases hupper : c.isUpper = true
  · exact Bool.or_eq_true_iff.2 (.inl hupper)
  · have hsame : c.toLower = c := dif_neg fun hrange => hupper (decide_eq_true hrange)
    rwa [hsame] at h

/-- On letters, folding is that of ASCII. -/
theorem lower_of_isAlpha (h : ∀ c ∈ s, c.isAlpha = true) : lower s = s.map Char.toLower := by
  induction s with
  | nil => rfl
  | cons c s ih =>
    have hrange := isAlpha_iff.1 (h c List.mem_cons_self)
    have hc : lowerChar c = [c.toLower] := by
      rw [lowerChar, if_neg (by omega), if_neg (by omega)]
    rw [lower, List.flatMap_cons, hc, List.map_cons]
    exact congrArg (c.toLower :: ·) (ih fun d hd => h d (List.mem_cons_of_mem c hd))

end Text

/-! ## Lists -/

namespace Coerce

open Text (isWord unescape decodeEscapes trim WritesBlank)

/-- The methods that a text is read as. -/
def methods (text : String) : List JoinMethod := (list (unescape text)).filterMap joinMethod?

/-- The methods that have a text as their name, in any letter case. -/
def named (text : String) : List JoinMethod := JoinMethod.all.filter fun m => isWord m.name text

/-- The text of an item: decoded, and without the blanks around it. -/
def itemText (text : String) : String := String.ofList (trim (decodeEscapes text.toList))

variable {text : String} {m : JoinMethod}

theorem named_of_lower (h : Text.lower text.toList = m.name.toList) : named text = [m] := by
  have hname : (fun m' : JoinMethod => isWord m'.name text)
      = fun m' : JoinMethod => m.name.toList == m'.name.toList := by
    funext m'
    rw [isWord, h]
  rw [named, hname]
  cases m <;> decide

theorem toList_joinMethod? (text : String) : (joinMethod? text).toList = named text := by
  cases h : joinMethod? text with
  | some m =>
    have hword := List.find?_some h
    exact (named_of_lower (isWord_iff.1 hword)).symm
  | none =>
    refine (List.filter_eq_nil_iff.2 fun m hm => ?_).symm
    exact List.find?_eq_none.1 h m hm

theorem items_append_comma (s t : List Char) : items (s ++ ',' :: t) = items s ++ items t := by
  rw [items, items, items, ← List.map_append]
  exact congrArg _ (List.splitOnP_append_cons s t (by decide))

theorem items_of_not_mem {s : List Char} (h : ',' ∉ s) : items s = [trim s] := by
  rw [items, List.splitOn_eq_singleton h]
  rfl

theorem methods_eq (text : String) : methods text =
    (items (decodeEscapes text.toList)).flatMap fun item => named (String.ofList item) := by
  rw [methods, list, unescape, String.toList_ofList, List.filterMap_map]
  induction items (decodeEscapes text.toList) with
  | nil => rfl
  | cons item rest ih =>
    rw [List.flatMap_cons, ← ih, ← toList_joinMethod?, List.filterMap_cons, Function.comp_apply]
    cases joinMethod? (String.ofList item) <;> rfl

/-- Methods are read on both sides of a comma on their own. -/
theorem methods_append_comma (a b : String) : methods (a ++ "," ++ b) = methods a ++ methods b := by
  have htext : (a ++ "," ++ b).toList = a.toList ++ ',' :: b.toList := by
    simp
  rw [methods_eq, methods_eq, methods_eq, htext,
    Text.decodeEscapes_append_cons (by decide) (by decide), items_append_comma, List.flatMap_append]

theorem methods_of_not_mem (h : ',' ∉ decodeEscapes text.toList) :
    methods text = named (itemText text) := by
  rw [methods_eq, items_of_not_mem h, List.flatMap_singleton]
  rfl

/-- A text writes a method: its name with letters of either case, and blanks and escapes of control
characters around it. -/
def WritesMethod (m : JoinMethod) (text : String) : Prop :=
  ∃ front name back, text.toList = front ++ name ++ back ∧ WritesBlank front ∧
    name.map Char.toLower = m.name.toList ∧ WritesBlank back

theorem WritesMethod.methods_eq (h : WritesMethod m text) : methods text = [m] := by
  obtain ⟨front, name, back, htext, hfront, hname, hback⟩ := h
  have halpha : ∀ c ∈ name, c.isAlpha = true := by
    intro c hc
    have hletters : m.name.toList.all Char.isAlpha = true := by cases m <;> decide
    refine Text.isAlpha_of_isAlpha_toLower (List.all_eq_true.1 hletters _ ?_)
    rw [← hname]
    exact List.mem_map_of_mem hc
  have hnonempty : name ≠ [] := by
    have hletters : m.name.toList ≠ [] := by cases m <;> decide
    rintro rfl
    exact hletters hname.symm
  have hescape : '\\' ∉ name := fun hc => absurd (halpha _ hc) (by decide)
  have hdecoded :
      decodeEscapes text.toList = decodeEscapes front ++ name ++ decodeEscapes back := by
    rw [htext, List.append_assoc, hfront.decodeEscapes_append,
      Text.decodeEscapes_append_of_not_mem hescape, List.append_assoc]
  have hblank := Text.forall_isBlank_decodeEscapes front
  have hblank' := Text.forall_isBlank_decodeEscapes back
  have hcomma : ',' ∉ decodeEscapes text.toList := by
    rw [hdecoded, List.mem_append, List.mem_append]
    rintro ((hc | hc) | hc)
    · exact absurd (hblank.2 hfront _ hc) (by decide)
    · exact absurd (halpha _ hc) (by decide)
    · exact absurd (hblank'.2 hback _ hc) (by decide)
  have hitem : itemText text = String.ofList name := by
    rw [itemText, hdecoded, Text.trim_append (hblank.2 hfront)
      (fun c hc => Text.not_isBlank_of_isAlpha (halpha c hc)) hnonempty (hblank'.2 hback)]
  rw [methods_of_not_mem hcomma, hitem]
  refine named_of_lower ?_
  rw [String.toList_ofList, Text.lower_of_isAlpha halpha, hname]

/-- Methods that are written with commas between them are read. -/
theorem methods_intercalate {ms : List JoinMethod} {texts : List String}
    (h : List.Forall₂ WritesMethod ms texts) : methods (",".intercalate texts) = ms := by
  induction h with
  | nil => decide
  | @cons m text ms texts hm h ih =>
    by_cases htexts : texts = []
    · subst htexts
      cases h
      rw [String.intercalate_singleton, hm.methods_eq]
    · rw [String.intercalate_cons_of_ne_nil htexts, methods_append_comma, hm.methods_eq, ih]
      rfl

end Coerce

/-! ## The variable -/

namespace Reader

open Coerce (WritesMethod named itemText)

/-- The methods that are read where a variable is set to a text. -/
def methodsRead (src : Source) (t : Trace) (key : String) (fallback : List String)
    (text : String) : List JoinMethod :=
  ((methods { src with environment := src.environment.set (fullName key) (some text) } key
    fallback).run t).1

theorem methodsRead_eq (src : Source) (t : Trace) (key : String) (fallback : List String)
    (text : String) : methodsRead src t key fallback text = Coerce.methods text := by
  rw [methodsRead, run_methods, Environment.get?_set, if_pos rfl, SettingType.ofVariable,
    Option.bind_some, SettingType.ofText?, Option.getD_some, Coerce.methods]

/-- **Lists of methods are read piece by piece.** Whatever is on the two sides of a comma, the
methods that are read are those of one side and then those of the other. A value without a comma
has the method that it names, once it is decoded and the blanks around it are gone, and none if it
names none. And if texts write methods, then with commas between them they are read as these
methods. -/
theorem methodsRead_exact (src : Source) (t : Trace) (key : String) (fallback : List String) :
    (∀ a b, methodsRead src t key fallback (a ++ "," ++ b)
      = methodsRead src t key fallback a ++ methodsRead src t key fallback b) ∧
    (∀ a : String, ',' ∉ a.toList →
      methodsRead src t key fallback a = named (itemText a)) ∧
    ∀ ms texts, List.Forall₂ WritesMethod ms texts →
      methodsRead src t key fallback (",".intercalate texts) = ms := by
  simp only [methodsRead_eq]
  refine ⟨Coerce.methods_append_comma, fun a ha => ?_, fun ms texts => Coerce.methods_intercalate⟩
  exact Coerce.methods_of_not_mem (Text.not_mem_decodeEscapes (by decide) ha)

/-- Three texts that write methods: with escapes and blanks around them, in capitals, and plain. -/
def threeTexts : List String := ["\\n KiCK", "\\tHOLD\\r \\n", "kick"]

theorem writesMethod_threeTexts : List.Forall₂ WritesMethod [.kick, .hold, .kick] threeTexts := by
  have hfirst : WritesMethod .kick "\\n KiCK" := by
    refine ⟨['\\', 'n', ' '], ['K', 'i', 'C', 'K'], [], by decide, ?_, by decide, .nil⟩
    exact .escape (p := ('n', '\n')) (by decide) (.blank (by decide) .nil)
  have hsecond : WritesMethod .hold "\\tHOLD\\r \\n" := by
    refine ⟨['\\', 't'], ['H', 'O', 'L', 'D'], ['\\', 'r', ' ', '\\', 'n'], by decide, ?_,
      by decide, ?_⟩
    · exact .escape (p := ('t', '\t')) (by decide) .nil
    · exact .escape (p := ('r', '\r')) (by decide)
        (.blank (by decide) (.escape (p := ('n', '\n')) (by decide) .nil))
  have hthird : WritesMethod .kick "kick" :=
    ⟨[], ['k', 'i', 'c', 'k'], [], by decide, .nil, by decide, .nil⟩
  exact .cons hfirst (.cons hsecond (.cons hthird .nil))

theorem methodsRead_exact_threeTexts :
    ',' ∉ " Hole ".toList ∧ List.Forall₂ WritesMethod [.kick, .hold, .kick] threeTexts ∧
    methodsRead ⟨.empty, fun _ _ => .addresses [], .other⟩ ⟨[], []⟩ "JOIN_METHODS" ["lobby"]
      " Hole " = [] ∧
    methodsRead ⟨.empty, fun _ _ => .addresses [], .other⟩ ⟨[], []⟩ "JOIN_METHODS" ["lobby"]
      "\\n KiCK,\\tHOLD\\r \\n,kick" = [.kick, .hold, .kick] := by
  obtain ⟨-, hone, hmany⟩ := methodsRead_exact ⟨.empty, fun _ _ => .addresses [], .other⟩ ⟨[], []⟩
    "JOIN_METHODS" ["lobby"]
  have hcomma : ',' ∉ " Hole ".toList := by decide
  have hvalue : "\\n KiCK,\\tHOLD\\r \\n,kick" = ",".intercalate threeTexts := by decide
  refine ⟨hcomma, writesMethod_threeTexts, ?_, ?_⟩
  · rw [hone " Hole " hcomma]
    decide
  · rw [hvalue, hmany _ _ writesMethod_threeTexts]

end Reader

end WakeConfig
