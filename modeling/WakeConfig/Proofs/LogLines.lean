import Mathlib.Data.List.Forall2
import Mathlib.Tactic.SplitIfs
import WakeConfig.Log
import WakeConfig.Proofs.Json.Reading

/-!
# Lines of the log

Each entry that is written is one line of the log, and no text in it can make another:
`run_exact` says that the lines of the log, each read as JSON, are the calls of the logger in
their order, but for those for debugging where these are not asked for. `ShownAs` says what becomes
of the data of a call.
-/

namespace WakeConfig

/-! ## Control characters -/

/-- A text without control characters. A line break is one of them. -/
def Unbroken (s : List Char) : Prop := ∀ c ∈ s, 0x20 ≤ c.toNat

instance (s : List Char) : Decidable (Unbroken s) :=
  List.decidableBAll (fun c : Char => 0x20 ≤ c.toNat) s

namespace Unbroken

variable {s t : List Char} {c : Char}

theorem cons (hc : 0x20 ≤ c.toNat) (hs : Unbroken s) : Unbroken (c :: s) :=
  List.forall_mem_cons.2 ⟨hc, hs⟩

theorem append (hs : Unbroken s) (ht : Unbroken t) : Unbroken (s ++ t) :=
  List.forall_mem_append.2 ⟨hs, ht⟩

theorem subset (ht : Unbroken t) (h : s ⊆ t) : Unbroken s := fun c hc => ht c (h hc)

theorem of_digits (h : ∀ c ∈ s, Text.isDigit c = true) : Unbroken s := by
  intro c hc
  have := (Text.isDigit_iff.1 (h c hc)).1
  omega

theorem not_mem (hs : Unbroken s) : '\n' ∉ s := fun h => absurd (hs _ h) (by decide)

end Unbroken

/-! ## Numbers and strings -/

theorem Decimal.unbroken_positional {digits : List Char} (h : Unbroken digits) (scale : Nat) :
    Unbroken (positional digits scale) := by
  have hpadded : Unbroken (List.replicate (scale + 1 - digits.length) '0' ++ digits) := by
    refine .append (fun c hc => ?_) h
    rw [(List.mem_replicate.1 hc).2]
    decide
  unfold positional
  dsimp only
  refine .append (hpadded.subset (List.take_subset _ _)) ?_
  split
  · decide
  · exact .cons (by decide) (hpadded.subset (List.drop_subset _ _))

theorem Decimal.unbroken_scientific {digits : List Char} (h : Unbroken digits) (exponent : Int) :
    Unbroken (scientific digits exponent) := by
  have hkept : Unbroken (digits.reverse.dropWhile (· == '0')).reverse := by
    refine h.subset fun c hc => ?_
    exact List.mem_reverse.1 ((List.dropWhile_sublist _).subset (List.mem_reverse.1 hc))
  have hexponent : Unbroken (Nat.toDigits 10 exponent.natAbs) :=
    .of_digits fun _ hc => Text.isDigit_of_mem_toDigits hc
  unfold scientific
  dsimp only
  refine .append (.append (hkept.subset (List.take_subset _ _)) ?_)
    (.cons (by decide) (.cons ?_ hexponent))
  · split
    · decide
    · exact .cons (by decide) (hkept.subset (List.drop_subset _ _))
  · split <;> decide

theorem Decimal.unbroken_chars (d : Decimal) : Unbroken d.chars := by
  have hdigits : Unbroken (Nat.toDigits 10 d.mantissa.natAbs) :=
    .of_digits fun _ hc => Text.isDigit_of_mem_toDigits hc
  unfold chars
  refine .append ?_ ?_
  · split <;> decide
  · split
    · exact unbroken_positional hdigits _
    · exact unbroken_scientific hdigits _

namespace Json

/-- A control character is escaped, whichever it is. -/
theorem unbroken_escapeChar (c : Char) : Unbroken (escapeChar c) := by
  have hhex : ∀ n < 16, 0x20 ≤ (hexDigit n).toNat := by decide
  unfold escapeChar
  split_ifs with _ _ _ _ _ _ _ hcontrol
  iterate 7 · decide
  · have hhigh := hhex (c.toNat / 16) (by omega)
    have hlow := hhex (c.toNat % 16) (by omega)
    exact .append (s := ['\\', 'u', '0', '0']) (by decide) (.cons hhigh (.cons hlow nofun))
  · exact .cons (Nat.le_of_not_lt hcontrol) nofun

theorem unbroken_quote (s : List Char) : Unbroken (quote s) := by
  refine .cons (by decide) (.append ?_ (by decide))
  intro c hc
  obtain ⟨x, -, hx⟩ := List.mem_flatMap.1 hc
  exact unbroken_escapeChar x c hx

/-! ## The compact form -/

mutual
/-- The compact form of a value has no control characters, whatever strings are in it. -/
theorem unbroken_compact : (v : Json) → Unbroken v.compact
  | .null => by rw [compact]; decide
  | .bool b => by rw [compact]; cases b <;> decide
  | .number d => by rw [compact]; exact d.unbroken_chars
  | .string t => by rw [compact]; exact unbroken_quote t.toList
  | .array items => by
    rw [compact]
    exact .cons (by decide) (.append (unbroken_compactItems items) (by decide))
  | .object members => by
    rw [compact]
    exact .cons (by decide) (.append (unbroken_compactMembers members) (by decide))

theorem unbroken_compactItems : (items : List Json) → Unbroken (compactItems items)
  | [] => by rw [compactItems]; decide
  | [item] => by rw [compactItems]; exact unbroken_compact item
  | item :: next :: items => by
    rw [compactItems]
    · exact .append (unbroken_compact item)
        (.cons (by decide) (unbroken_compactItems (next :: items)))
    · exact fun h => nomatch h

theorem unbroken_compactMembers :
    (members : List (String × Json)) → Unbroken (compactMembers members)
  | [] => by rw [compactMembers]; decide
  | [(name, v)] => by
    rw [compactMembers]
    exact .append (unbroken_quote _) (.cons (by decide) (unbroken_compact v))
  | (name, v) :: next :: members => by
    rw [compactMembers]
    · exact .append (unbroken_quote _) (.cons (by decide) (.append (unbroken_compact v)
        (.cons (by decide) (unbroken_compactMembers (next :: members)))))
    · exact fun h => nomatch h
end

end Json

/-! ## Data -/

/-- A value shows data: every error in it becomes an object of its name and message, and all else is
as it was. -/
inductive LogData.ShownAs : LogData → Json → Prop where
  | null : ShownAs .null .null
  | bool (b : Bool) : ShownAs (.bool b) (.bool b)
  | number (d : Decimal) : ShownAs (.number d) (.number d)
  | string (t : String) : ShownAs (.string t) (.string t)
  | error (name message : String) : ShownAs (.error name message)
      (.object [("name", .string name), ("message", .string message)])
  | array {items : List LogData} {values : List Json} :
      List.Forall₂ ShownAs items values → ShownAs (.array items) (.array values)
  | object {members : List (String × LogData)} {values : List (String × Json)} :
      members.map Prod.fst = values.map Prod.fst →
      List.Forall₂ ShownAs (members.map Prod.snd) (values.map Prod.snd) →
        ShownAs (.object members) (.object values)

namespace LogData

theorem membersToJson_fst : (members : List (String × LogData)) →
    members.map Prod.fst = (membersToJson members).map Prod.fst
  | [] => by rw [membersToJson]; rfl
  | (name, d) :: members => by
    rw [membersToJson, List.map_cons, List.map_cons, membersToJson_fst members]

mutual
/-- The JSON value of data shows it. -/
theorem shownAs_toJson : (d : LogData) → d.ShownAs d.toJson
  | .null => by rw [toJson]; exact .null
  | .bool b => by rw [toJson]; exact .bool b
  | .number d => by rw [toJson]; exact .number d
  | .string t => by rw [toJson]; exact .string t
  | .error name message => by rw [toJson]; exact .error name message
  | .array items => by rw [toJson]; exact .array (itemsShownAs_itemsToJson items)
  | .object members => by
    rw [toJson]
    exact .object (membersToJson_fst members) (membersShownAs_membersToJson members)

theorem itemsShownAs_itemsToJson :
    (items : List LogData) → List.Forall₂ ShownAs items (itemsToJson items)
  | [] => by rw [itemsToJson]; exact .nil
  | item :: items => by
    rw [itemsToJson]
    exact .cons (shownAs_toJson item) (itemsShownAs_itemsToJson items)

theorem membersShownAs_membersToJson : (members : List (String × LogData)) →
    List.Forall₂ ShownAs (members.map Prod.snd) ((membersToJson members).map Prod.snd)
  | [] => by rw [membersToJson]; exact .nil
  | (name, d) :: members => by
    rw [membersToJson]
    exact .cons (shownAs_toJson d) (membersShownAs_membersToJson members)
end

mutual
/-- Data is shown by one value only. -/
theorem ShownAs.eq_toJson : (d : LogData) → {v : Json} → d.ShownAs v → v = d.toJson
  | .null, _, .null => by rw [toJson]
  | .bool b, _, .bool _ => by rw [toJson]
  | .number d, _, .number _ => by rw [toJson]
  | .string t, _, .string _ => by rw [toJson]
  | .error name message, _, .error _ _ => by rw [toJson]
  | .array items, _, .array h => by rw [toJson, eq_itemsToJson items h]
  | .object members, _, .object hnames h => by rw [toJson, eq_membersToJson members hnames h]

theorem ShownAs.eq_itemsToJson :
    (items : List LogData) → {values : List Json} → List.Forall₂ ShownAs items values →
    values = itemsToJson items
  | [], _, .nil => by rw [itemsToJson]
  | item :: items, _, .cons h hs => by
    rw [itemsToJson, eq_toJson item h, eq_itemsToJson items hs]

theorem ShownAs.eq_membersToJson : (members : List (String × LogData)) →
    {values : List (String × Json)} → members.map Prod.fst = values.map Prod.fst →
    List.Forall₂ ShownAs (members.map Prod.snd) (values.map Prod.snd) →
    values = membersToJson members
  | [], [], _, _ => by rw [membersToJson]
  | (name, d) :: members, (name', v) :: values, hnames, .cons h hs => by
    obtain ⟨rfl, hrest⟩ := List.cons.inj hnames
    have hvalue : v = d.toJson := eq_toJson d h
    rw [membersToJson, hvalue, eq_membersToJson members hrest hs]
end

end LogData

/-! ## Entries -/

/-- A call of a logger: an entry and the time at which it is made. -/
structure LogCall where
  timestamp : String
  entry : LogEntry

/-- A value records a call of a logger for a component: it has the time, the level, the component
and the event, and behind these the data that was given, if any was. -/
inductive LogCall.RecordedAs (component : String) (c : LogCall) : Json → Prop where
  | bare : c.entry.data? = none → RecordedAs component c
      (.object [("timestamp", .string c.timestamp), ("level", .string c.entry.level.name),
        ("component", .string component), ("event", .string c.entry.event)])
  | withData {d : LogData} {shown : Json} : c.entry.data? = some d → d.ShownAs shown →
      RecordedAs component c
        (.object [("timestamp", .string c.timestamp), ("level", .string c.entry.level.name),
          ("component", .string component), ("event", .string c.entry.event), ("data", shown)])

/-- A text is a line: it has no control character but the line break at its end. -/
def IsLine (text : String) : Prop := ∃ body, Unbroken body ∧ text.toList = body ++ ['\n']

theorem LogCall.recordedAs_toJson (component : String) (c : LogCall) :
    c.RecordedAs component (c.entry.toJson component c.timestamp) := by
  obtain ⟨timestamp, level, event, data?⟩ := c
  cases data? with
  | none => exact .bare rfl
  | some d => exact .withData rfl d.shownAs_toJson

/-- A call is recorded by one value only. -/
theorem LogCall.recordedAs_iff {component : String} {c : LogCall} {v : Json} :
    c.RecordedAs component v ↔ v = c.entry.toJson component c.timestamp := by
  constructor
  · obtain ⟨timestamp, level, event, data?⟩ := c
    rintro (hdata | ⟨hdata, hshown⟩)
    · obtain rfl : data? = none := hdata
      rfl
    · obtain rfl : data? = some _ := hdata
      rw [LogData.ShownAs.eq_toJson _ hshown]
      rfl
  · rintro rfl
    exact c.recordedAs_toJson component

/-- The line of an entry is the compact form of its object, and a line break. -/
theorem toList_line (component : String) (c : LogCall) :
    (c.entry.line component c.timestamp).toList =
      (c.entry.toJson component c.timestamp).compact ++ ['\n'] := by
  rw [LogEntry.line, String.toList_ofList]

theorem isLine_line (component : String) (c : LogCall) :
    IsLine (c.entry.line component c.timestamp) :=
  ⟨_, Json.unbroken_compact _, toList_line component c⟩

/-- A line is read as the object of its entry. -/
theorem read?_line (component : String) (c : LogCall) :
    Json.read? (c.entry.line component c.timestamp).toList =
      some (c.entry.toJson component c.timestamp) := by
  have hbreak : Json.AllBlank ['\n'] := fun x hx => by
    rw [List.mem_singleton.1 hx]
    rfl
  rw [toList_line]
  exact Json.read?_of_padded
    ⟨[], _, ['\n'], Json.allBlank_nil, Json.writtenAs_compact _, hbreak, rfl⟩

/-! ## The log -/

namespace Logger

/-- What a log holds after a call of a logger. -/
def receive (l : Logger) (log : List String) (c : LogCall) : List String :=
  log ++ l.write c.timestamp c.entry

/-- What calls of a logger write to a log that was empty. -/
def run (l : Logger) (calls : List LogCall) : List String := calls.foldl l.receive []

/-- A call is dropped if it is for debugging and that was not asked for. -/
def drops (l : Logger) (c : LogCall) : Bool := c.entry.level == .debug && !l.debugMode

variable {l : Logger}

/-- One call leaves what is in the log, and adds one line unless it is dropped. -/
theorem receive_eq (l : Logger) (log : List String) (c : LogCall) :
    l.receive log c =
      log ++ if l.drops c then [] else [c.entry.line l.component c.timestamp] := by
  rw [receive, write, accepts, drops]
  cases l.debugMode <;> cases c.entry.level <;> rfl

/-- Calls leave what is in the log, and add the lines of those that are not dropped. -/
theorem foldl_receive (l : Logger) (log : List String) (calls : List LogCall) :
    calls.foldl l.receive log =
      log ++ (calls.filter fun c => !l.drops c).map
        fun c => c.entry.line l.component c.timestamp := by
  induction calls generalizing log with
  | nil => simp
  | cons c calls ih =>
    rw [List.foldl_cons, ih, receive_eq, List.filter_cons]
    cases l.drops c <;> simp

theorem run_eq (l : Logger) (calls : List LogCall) :
    l.run calls = (calls.filter fun c => !l.drops c).map
      fun c => c.entry.line l.component c.timestamp := foldl_receive l [] calls

end Logger

/-- Lines one after the other are cut into what is in them, and nothing behind the last. -/
theorem splitOn_lines {α : Type} (text : α → List Char) (xs : List α)
    (h : ∀ x ∈ xs, '\n' ∉ text x) :
    (xs.flatMap fun x => text x ++ ['\n']).splitOn '\n' = xs.map text ++ [[]] := by
  induction xs with
  | nil => rfl
  | cons x xs ih =>
    obtain ⟨hx, hxs⟩ := List.forall_mem_cons.1 h
    have hcut : (text x ++ '\n' :: xs.flatMap fun x => text x ++ ['\n']).splitOn '\n' =
        (text x).splitOn '\n' ++ (xs.flatMap fun x => text x ++ ['\n']).splitOn '\n' :=
      List.splitOnP_append_cons _ _ (by decide)
    rw [List.flatMap_cons, List.append_assoc, List.singleton_append, hcut,
      List.splitOn_eq_singleton hx, ih hxs]
    rfl

/-- **The log is its entries, one on each line.** The calls of a logger that are not for debugging
in vain write one text each, in their order. Each text is a line, with no control character but the
line break at its end, and read as JSON it is the one value that records its call: the time, the
level, the component, the event and, where data was given, that data with every error in it as its
name and message. So whoever cuts the log at its line breaks finds these calls and no others,
whatever texts are in them. -/
theorem Logger.run_exact (l : Logger) (calls : List LogCall) :
    List.Forall₂ (fun c text => IsLine text ∧
        ∃ v, Json.read? text.toList = some v ∧ ∀ w, c.RecordedAs l.component w ↔ w = v)
      (calls.filter fun c => !l.drops c) (l.run calls) ∧
    ∃ values, List.Forall₂ (fun c v => c.RecordedAs l.component v)
        (calls.filter fun c => !l.drops c) values ∧
      ((String.join (l.run calls)).toList.splitOn '\n').map Json.read? =
        values.map some ++ [none] := by
  rw [run_eq]
  generalize (calls.filter fun c => !l.drops c) = heard
  refine ⟨?_, heard.map fun c => c.entry.toJson l.component c.timestamp, ?_, ?_⟩
  · refine List.forall₂_map_right_iff.2 (List.forall₂_same.2 fun c _ => ?_)
    exact ⟨isLine_line l.component c, _, read?_line l.component c, fun w => LogCall.recordedAs_iff⟩
  · exact List.forall₂_map_right_iff.2
      (List.forall₂_same.2 fun c _ => c.recordedAs_toJson l.component)
  · have hlines : (String.join (heard.map fun c => c.entry.line l.component c.timestamp)).toList =
        heard.flatMap fun c => (c.entry.toJson l.component c.timestamp).compact ++ ['\n'] := by
      rw [String.toList_join, List.flatMap_map]
      exact List.flatMap_congr fun c _ => toList_line l.component c
    have hread : ∀ v : Json, Json.read? v.compact = some v :=
      fun v => Json.read?_of_writtenAs (Json.writtenAs_compact v)
    rw [hlines, splitOn_lines _ heard fun c _ => (Json.unbroken_compact _).not_mem,
      List.map_append, List.map_map, List.map_map]
    simp only [Function.comp_def, hread]
    rfl

end WakeConfig
