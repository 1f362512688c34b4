import Mathlib.Data.List.Basic
import WakeConfig.CommandLine.Arguments

/-!
# Command lines

What a list of arguments says, as items: words, and options with a path, each in one of three forms.
A list of arguments is written by items, and by one list of items only, or it is so up to an option
without a path. `read_exact` says that reading finds what the items say, and that it refuses
everything that no items write.
-/

namespace WakeConfig.Arguments

/-! ## Items -/

/-- The forms of an option with its path: two arguments, the option in its long or its short form
in front, or one argument with an equals sign. -/
inductive OptionForm where
  | long
  | short
  | joined
  deriving Repr, DecidableEq

/-- An option in its long form with what stands behind an equals sign. -/
def joinedOption (path : String) : String := longOption ++ "=" ++ path

/-- The arguments that write an option with a path. -/
def OptionForm.arguments (path : String) : OptionForm → List String
  | long => [longOption, path]
  | short => [shortOption, path]
  | joined => [joinedOption path]

/-- An argument that is no option, and does not begin like one with its path. -/
structure IsWord (argument : String) : Prop where
  long : argument ≠ longOption
  short : argument ≠ shortOption
  joined : ∀ path, argument ≠ joinedOption path

/-- An item of a command line: a word, or an option with a path that is not empty. -/
inductive Item where
  | word (text : String) (isWord : IsWord text)
  | option (form : OptionForm) (path : String) (nonempty : path ≠ "")

/-- The arguments that write an item. -/
def Item.arguments : Item → List String
  | word text _ => [text]
  | option form path _ => form.arguments path

/-- The word of an item. -/
def Item.word? : Item → Option String
  | word text _ => some text
  | option _ _ _ => none

/-- The path of an item. -/
def Item.path? : Item → Option String
  | word _ _ => none
  | option _ path _ => some path

/-- The arguments that write items. -/
def written (items : List Item) : List String := items.flatMap Item.arguments

/-- The words of items, in their order. -/
def wordsOf (items : List Item) : List String := items.filterMap Item.word?

/-- The path of the last option. -/
def lastPath? (items : List Item) : Option String := (items.filterMap Item.path?).getLast?

/-- What items say. -/
def ofItems (items : List Item) : Arguments := ⟨wordsOf items, lastPath? items⟩

/-! ## One item -/

variable {argument path : String} {rest : List String}

theorem toList_joinedOption (path : String) :
    (joinedOption path).toList = (longOption ++ "=").toList ++ path.toList := String.toList_append

theorem joinedOption_injective (h : joinedOption argument = joinedOption path) : argument = path :=
  (String.append_right_inj _).1 h

theorem inlinePath?_eq_some_iff :
    inlinePath? argument = some path ↔ argument = joinedOption path := by
  rw [inlinePath?, Option.map_eq_some_iff]
  constructor
  · rintro ⟨cs, hcs, rfl⟩
    rw [List.isPrefixOf?_eq_some_iff_append_eq] at hcs
    rw [← String.toList_inj, toList_joinedOption, String.toList_ofList, hcs]
  · rintro rfl
    refine ⟨path.toList, ?_, String.ofList_toList⟩
    rw [List.isPrefixOf?_eq_some_iff_append_eq, toList_joinedOption]

theorem joinedOption_ne (path : String) :
    joinedOption path ≠ longOption ∧ joinedOption path ≠ shortOption := by
  have hequals : (joinedOption path).toList[8]? = some '=' := by
    rw [toList_joinedOption]
    rfl
  constructor
  · intro h
    rw [h] at hequals
    cases hequals
  · intro h
    rw [h] at hequals
    cases hequals

theorem isWord_iff : IsWord argument ↔
    ¬ (argument = longOption ∨ argument = shortOption) ∧ inlinePath? argument = none := by
  rw [Option.eq_none_iff_forall_ne_some, not_or]
  constructor
  · intro h
    exact ⟨⟨h.long, h.short⟩, fun path hpath => h.joined path (inlinePath?_eq_some_iff.1 hpath)⟩
  · rintro ⟨⟨hlong, hshort⟩, hjoined⟩
    exact ⟨hlong, hshort, fun path hpath => hjoined path (inlinePath?_eq_some_iff.2 hpath)⟩

instance : DecidablePred IsWord := fun _ => decidable_of_iff _ isWord_iff.symm

/-- What an item adds to what stands behind it. -/
def Item.add : Item → Arguments → Arguments
  | .word text _ => addWord text
  | .option _ path _ => addPath path

/-- The step of reading: an item is read, and then what stands behind it. -/
theorem read_item (i : Item) (rest : List String) :
    read (i.arguments ++ rest) = (read rest).map i.add := by
  cases i with
  | word text h =>
    show read (text :: rest) = (read rest).map (addWord text)
    rw [read.eq_def]
    dsimp only
    obtain ⟨hoption, hjoined⟩ := isWord_iff.1 h
    rw [if_neg hoption, hjoined]
  | option form path hpath =>
    show read (form.arguments path ++ rest) = (read rest).map (addPath path)
    cases form with
    | long =>
      show read (longOption :: path :: rest) = _
      rw [read, if_pos (.inl rfl), if_neg hpath]
    | short =>
      show read (shortOption :: path :: rest) = _
      rw [read, if_pos (.inr rfl), if_neg hpath]
    | joined =>
      show read (joinedOption path :: rest) = _
      rw [read.eq_def]
      dsimp only
      rw [if_neg (not_or.2 (joinedOption_ne path)), inlinePath?_eq_some_iff.2 rfl]
      dsimp only
      rw [if_neg hpath]

theorem IsWord.ne_option (h : IsWord argument) (form : OptionForm) (path : String)
    (rest rest' : List String) : argument :: rest ≠ form.arguments path ++ rest' := by
  intro heq
  cases form with
  | long => exact h.long (List.cons.inj heq).1
  | short => exact h.short (List.cons.inj heq).1
  | joined => exact h.joined path (List.cons.inj heq).1

theorem OptionForm.arguments_append_inj {form form' : OptionForm} {path' : String}
    {rest' : List String} (h : form.arguments path ++ rest = form'.arguments path' ++ rest') :
    form = form' ∧ path = path' ∧ rest = rest' := by
  have hforms : longOption ≠ shortOption := by decide
  cases form with
  | long =>
    cases form' with
    | long =>
      obtain ⟨rfl, rfl⟩ := List.cons.inj (List.cons.inj h).2
      exact ⟨rfl, rfl, rfl⟩
    | short => exact absurd (List.cons.inj h).1 hforms
    | joined => exact absurd (List.cons.inj h).1.symm (joinedOption_ne path').1
  | short =>
    cases form' with
    | long => exact absurd (List.cons.inj h).1.symm hforms
    | short =>
      obtain ⟨rfl, rfl⟩ := List.cons.inj (List.cons.inj h).2
      exact ⟨rfl, rfl, rfl⟩
    | joined => exact absurd (List.cons.inj h).1.symm (joinedOption_ne path').2
  | joined =>
    cases form' with
    | long => exact absurd (List.cons.inj h).1 (joinedOption_ne path).1
    | short => exact absurd (List.cons.inj h).1 (joinedOption_ne path).2
    | joined =>
      obtain ⟨hpath, rfl⟩ := List.cons.inj h
      exact ⟨rfl, joinedOption_injective hpath, rfl⟩

/-- The arguments of an item tell which item it is and where it ends. -/
theorem Item.arguments_append_inj {i i' : Item} {rest' : List String}
    (h : i.arguments ++ rest = i'.arguments ++ rest') : i = i' ∧ rest = rest' := by
  cases i with
  | word text hword =>
    cases i' with
    | word text' =>
      obtain ⟨rfl, rfl⟩ := List.cons.inj h
      exact ⟨rfl, rfl⟩
    | option form path => exact absurd h (hword.ne_option form path _ _)
  | option form path =>
    cases i' with
    | word text hword => exact absurd h.symm (hword.ne_option form path _ _)
    | option form' path' =>
      obtain ⟨rfl, rfl, rfl⟩ := OptionForm.arguments_append_inj h
      exact ⟨rfl, rfl⟩

theorem Item.arguments_ne_nil (i : Item) : i.arguments ≠ [] := by
  cases i with
  | word text h => exact List.cons_ne_nil _ _
  | option form path h => cases form <;> exact List.cons_ne_nil _ _

/-! ## Items one after the other -/

@[simp] theorem written_cons (i : Item) (items : List Item) :
    written (i :: items) = i.arguments ++ written items := List.flatMap_cons

/-- Arguments are written by one list of items at most. -/
theorem written_injective : Function.Injective written := by
  intro items
  induction items with
  | nil =>
    intro items' h
    cases items' with
    | nil => rfl
    | cons i items' =>
      rw [written_cons] at h
      exact absurd (List.append_eq_nil_iff.1 h.symm).1 i.arguments_ne_nil
  | cons i items ih =>
    intro items' h
    cases items' with
    | nil =>
      rw [written_cons] at h
      exact absurd (List.append_eq_nil_iff.1 h).1 i.arguments_ne_nil
    | cons i' items' =>
      rw [written_cons, written_cons] at h
      obtain ⟨rfl, hitems⟩ := Item.arguments_append_inj h
      rw [ih hitems]

/-- Reading goes over the items in front, which add to what stands behind them. -/
theorem read_written_append (items : List Item) (rest : List String) :
    read (written items ++ rest) = (read rest).map fun a => items.foldr Item.add a := by
  induction items with
  | nil => cases h : read rest <;> exact h
  | cons i items ih =>
    rw [written_cons, List.append_assoc, read_item, ih]
    cases read rest <;> rfl

/-- An option in front of others gives way to the last of them. -/
theorem foldr_add (items : List Item) : items.foldr Item.add ⟨[], none⟩ = ofItems items := by
  induction items with
  | nil => rfl
  | cons i items ih =>
    rw [List.foldr_cons, ih]
    cases i with
    | word text h => rfl
    | option form path h =>
      have hlast : lastPath? (.option form path h :: items) = (lastPath? items).or (some path) := by
        show (path :: items.filterMap Item.path?).getLast? = _
        rw [List.getLast?_cons, lastPath?]
        cases (items.filterMap Item.path?).getLast? <;> rfl
      show Arguments.mk (wordsOf items) ((lastPath? items).or (some path)) = _
      rw [ofItems, hlast]
      rfl

theorem read_written (items : List Item) : read (written items) = .ok (ofItems items) := by
  have h := read_written_append items []
  rw [List.append_nil] at h
  rw [h, read, ← foldr_add]
  rfl

/-! ## What no items write -/

/-- Arguments begin with an option that has no path: it is the last argument, or its path is
empty. -/
inductive LacksPath : String → List String → Prop
  | last {option : String} (h : option = longOption ∨ option = shortOption) :
      LacksPath option [option]
  | empty {option : String} (h : option = longOption ∨ option = shortOption) (rest : List String) :
      LacksPath option (option :: "" :: rest)
  | joined (rest : List String) : LacksPath longOption (joinedOption "" :: rest)

theorem LacksPath.read {option : String} (h : LacksPath option rest) :
    read rest = .error ⟨option⟩ := by
  cases h with
  | last h => rw [Arguments.read, if_pos h]
  | empty h rest => rw [Arguments.read, if_pos h, if_pos rfl]
  | joined rest =>
    rw [read.eq_def]
    dsimp only
    rw [if_neg (not_or.2 (joinedOption_ne "")), inlinePath?_eq_some_iff.2 rfl]
    rfl

/-- Arguments are written by items, but for an option without a path that they may end in. -/
def ComesFromItems (arguments : List String) : Prop :=
  ∃ items rest, arguments = written items ++ rest ∧ (rest = [] ∨ ∃ option, LacksPath option rest)

theorem ComesFromItems.of_lacksPath {option : String} (h : LacksPath option rest) :
    ComesFromItems rest := ⟨[], rest, rfl, .inr ⟨option, h⟩⟩

theorem ComesFromItems.append (i : Item) (h : ComesFromItems rest) :
    ComesFromItems (i.arguments ++ rest) := by
  obtain ⟨items, rest', rfl, hrest⟩ := h
  exact ⟨i :: items, rest', by rw [written_cons, List.append_assoc], hrest⟩

theorem comesFromItems (arguments : List String) : ComesFromItems arguments := by
  fun_induction read arguments with
  | case1 => exact ⟨[], [], rfl, .inl rfl⟩
  | case2 option h => exact .of_lacksPath (.last h)
  | case3 option h rest => exact .of_lacksPath (.empty h rest)
  | case4 option h path rest hpath ih =>
    rcases h with rfl | rfl
    · exact ih.append (.option .long path hpath)
    · exact ih.append (.option .short path hpath)
  | case5 argument rest _ h =>
    rw [inlinePath?_eq_some_iff.1 h]
    exact .of_lacksPath (.joined rest)
  | case6 argument rest _ path h hpath ih =>
    rw [inlinePath?_eq_some_iff.1 h]
    exact ih.append (.option .joined path hpath)
  | case7 argument rest h hjoined ih =>
    exact ih.append (.word argument (isWord_iff.2 ⟨h, hjoined⟩))

/-- **Reading a command line.** Whatever items are written, in any order and any forms, is read, and
gives the words in their order, the first as the command, and the path of the last option. So only
the words and this path count, and not where the options stand. No two lists of items are written
alike. Arguments that no items write are refused: behind the items in front of it stands an option
without a path, and this is the one that is named. -/
theorem read_exact :
    (∀ items, ∃ a, read (written items) = .ok a ∧
      a.command = (wordsOf items).head?.getD "" ∧ a.rest = (wordsOf items).tail ∧
      a.configPath = (lastPath? items).getD Default.configFile) ∧
    (∀ items items', wordsOf items = wordsOf items' → lastPath? items = lastPath? items' →
      read (written items) = read (written items')) ∧
    Function.Injective written ∧
    ∀ arguments, (¬ ∃ items, written items = arguments) →
      ∃ items option rest, arguments = written items ++ rest ∧ LacksPath option rest ∧
        read arguments = .error ⟨option⟩ := by
  refine ⟨fun items => ?_, fun items items' hwords hpath => ?_, written_injective,
    fun arguments h => ?_⟩
  · exact ⟨ofItems items, read_written items, List.headD_eq_head?_getD, List.drop_one, rfl⟩
  · rw [read_written, read_written, ofItems, ofItems, hwords, hpath]
  · obtain ⟨items, rest, rfl, rfl | ⟨option, hlacks⟩⟩ := comesFromItems arguments
    · exact absurd ⟨items, (List.append_nil _).symm⟩ h
    · refine ⟨items, option, rest, rfl, hlacks, ?_⟩
      rw [read_written_append, hlacks.read]
      rfl

/-- Two options and two words. The path of the first option looks like an option itself. -/
def fourItems : List Item :=
  [.option .short "--config=a" (by decide), .word "config" (by decide),
   .option .joined "-c" (by decide), .word "-x" (by decide)]

/-- The same words, with the last of the options alone behind them. -/
def threeItems : List Item :=
  [.word "config" (by decide), .word "-x" (by decide), .option .long "-c" (by decide)]

theorem read_exact_fourItems :
    written fourItems = ["-c", "--config=a", "config", "--config=-c", "-x"] ∧
    (∃ a, read (written fourItems) = .ok a ∧ a.command = "config" ∧ a.rest = ["-x"] ∧
      a.configPath = "-c") ∧
    read (written fourItems) = read ["config", "-x", "--config", "-c"] ∧
    read ["config", "--config", "", "-x"] = .error ⟨"--config"⟩ := by
  obtain ⟨hread, hmoved, -, hrefused⟩ := read_exact
  refine ⟨rfl, hread fourItems, hmoved fourItems threeItems rfl rfl, ?_⟩
  have hitems : ¬ ∃ items, written items = ["config", "--config", "", "-x"] := by
    rintro ⟨items, hitems⟩
    obtain ⟨a, ha, -⟩ := hread items
    rw [hitems] at ha
    cases ha
  obtain ⟨items, option, rest, -, -, herror⟩ := hrefused _ hitems
  obtain rfl : "--config" = option := congrArg UsageError.option (Except.error.inj herror)
  exact herror

end WakeConfig.Arguments
