import WakeConfig.Proofs.ExitCodes
import WakeConfig.Proofs.Rendering

/-!
# Testing and showing a configuration

`config test` and `config show` do all or nothing. Where loading gives a tree both succeed, and all
that they print is about that tree; where it gives an error both fail without printing anything, and
complain with one report, whose lines are `Raised.reportLines`. `tests_and_shows` says so of what
can be seen of a run.
-/

namespace WakeConfig

open WakeConfig.Action (logText)

/-! ## Lines -/

/-- Lines, each with its line break. -/
def unlines (lines : List String) : String := String.join (lines.map (· ++ "\n"))

/-- Lines, each with a line break in front. -/
def onNewLines (lines : List String) : String := String.join (lines.map ("\n" ++ ·))

variable {lines more : List String} {line : String}

@[simp] theorem unlines_nil : unlines [] = "" := rfl

@[simp] theorem unlines_cons : unlines (line :: lines) = line ++ "\n" ++ unlines lines := by
  rw [unlines, List.map_cons, String.join_cons, ← unlines]

@[simp] theorem unlines_append : unlines (lines ++ more) = unlines lines ++ unlines more := by
  rw [unlines, List.map_append, String.join_append, ← unlines, ← unlines]

theorem unlines_ne_empty (h : lines ≠ []) : unlines lines ≠ "" := by
  obtain ⟨line, rest, rfl⟩ := List.exists_cons_of_ne_nil h
  simp

@[simp] theorem onNewLines_nil : onNewLines [] = "" := rfl

@[simp] theorem onNewLines_cons :
    onNewLines (line :: lines) = "\n" ++ line ++ onNewLines lines := by
  rw [onNewLines, List.map_cons, String.join_cons, ← onNewLines]

@[simp] theorem onNewLines_append :
    onNewLines (lines ++ more) = onNewLines lines ++ onNewLines more := by
  rw [onNewLines, List.map_append, String.join_append, ← onNewLines, ← onNewLines]

/-- A line break behind the last line is one in front of the first. -/
theorem onNewLines_break (lines : List String) :
    onNewLines lines ++ "\n" = "\n" ++ unlines lines := by
  induction lines with
  | nil => rfl
  | cons line lines ih =>
    rw [onNewLines_cons, unlines_cons, String.append_assoc, ih, String.append_assoc,
      String.append_assoc]

/-- Lines behind another one, each on a new line, are lines. -/
theorem unlines_onNewLines_cons (line : String) (lines more : List String) :
    unlines ((line ++ onNewLines lines) :: more) = unlines (line :: (lines ++ more)) :=
  calc unlines ((line ++ onNewLines lines) :: more)
    _ = line ++ (onNewLines lines ++ "\n") ++ unlines more := by
      simp only [unlines_cons, String.append_assoc]
    _ = line ++ ("\n" ++ unlines lines) ++ unlines more := by rw [onNewLines_break]
    _ = unlines (line :: (lines ++ more)) := by
      simp only [unlines_cons, unlines_append, String.append_assoc]

/-! ## What a report says -/

/-- A line of a report. -/
inductive ReportLine where
  | empty
  | message (text : String)
  | file (path : String)
  | variableName (name : String)
  | heading
  | suggestion (number : Nat) (text : String)
  | action (command : String)
  deriving DecidableEq

/-- The text of a line. -/
def ReportLine.text (d : Display) : ReportLine → String
  | empty => ""
  | message text => d.styled .red "Error:" ++ " " ++ text
  | file path => "  " ++ d.styled .yellow "File:" ++ " " ++ path
  | variableName name => "  " ++ d.styled .yellow "Variable:" ++ " " ++ name
  | heading => d.styled .bold "Suggestions:"
  | suggestion number text => "  " ++ d.styled .yellow (toString number ++ ".") ++ " " ++ text
  | action command => "    " ++ d.styled .dim command

/-- What is suggested for an error of a kind, or of none. A command has a line of its own. -/
def ReportLine.advice : Option LoadKind → List ReportLine
  | some .read =>
    [ .suggestion 1 "Check that the config file is readable by the current user",
      .action "ls -l lazymc.toml",
      .suggestion 2 "Point lazymc at a different config file",
      .action "lazymc config test --config <path>" ]
  | some .parse =>
    [ .suggestion 1 "Fix the syntax error or invalid value reported above",
      .suggestion 2 "Make sure every address is a reachable host:port",
      .suggestion 3 "Validate the config file",
      .action "lazymc config test --config <path>" ]
  | some .missingVariable =>
    [ .suggestion 1 "Set the server start command",
      .action "export LAZYMC_SERVER_COMMAND=\"java -jar server.jar\"",
      .suggestion 2 "Or create a config file with a [server] command",
      .action "lazymc config test --config lazymc.toml",
      .suggestion 3 "List all supported environment variables",
      .action "lazymc config env" ]
  | none =>
    [ .suggestion 1 "Run with debug logging for more detail",
      .action "LAZYMC_DEBUG=1 lazymc config test" ]

/-! ### Errors with which loading ends -/

namespace Raised

variable (reason : String → String)

/-- The message of an error. -/
def message : Raised LoadError → String
  | own e => e.message reason
  | foreign raised => raised.message

/-- The file that an error is about. -/
def path? : Raised LoadError → Option String
  | own e => e.path?
  | foreign _ => none

/-- The variable that an error is about. -/
def variableName? : Raised LoadError → Option String
  | own e => e.variableName?
  | foreign _ => none

/-- The kind of an error. A foreign one has none. -/
def kind? : Raised LoadError → Option LoadKind
  | own e => e.kind?
  | foreign _ => none

/-- What is stated of an error: its message, and its file and its variable if it has them. -/
def statements (e : Raised LoadError) : List ReportLine :=
  .message (e.message reason) ::
    ((e.path?.map .file).toList ++ (e.variableName?.map .variableName).toList)

/-- The lines of the report on an error, between empty lines. -/
def reportLines (e : Raised LoadError) : List ReportLine :=
  .empty :: (e.statements reason ++ .empty :: .heading :: (ReportLine.advice e.kind? ++ [.empty]))

end Raised

namespace ReportLine

/-- The message of a line. -/
def message? : ReportLine → Option String
  | message text => some text
  | _ => none

/-- The file that a line names. -/
def path? : ReportLine → Option String
  | file path => some path
  | _ => none

/-- The variable that a line names. -/
def variableName? : ReportLine → Option String
  | variableName name => some name
  | _ => none

/-- A line is about a suggestion. -/
inductive IsSuggestion : ReportLine → Prop
  | suggestion (number : Nat) (text : String) : IsSuggestion (suggestion number text)
  | action (command : String) : IsSuggestion (action command)

instance : DecidablePred IsSuggestion
  | suggestion number text => isTrue (.suggestion number text)
  | action command => isTrue (.action command)
  | empty | message _ | file _ | variableName _ | heading => isFalse nofun

theorem isSuggestion_of_mem {kind? : Option LoadKind} {l : ReportLine} (h : l ∈ advice kind?) :
    l.IsSuggestion := by
  have hall : (advice kind?).all fun l => l.IsSuggestion := by
    rcases kind? with _ | kind
    · rfl
    · cases kind <;> rfl
  exact of_decide_eq_true (List.all_eq_true.1 hall l h)

end ReportLine

namespace Raised

variable (reason : String → String)

/-- Lines are one report on an error: they have its message and no other, they name a file exactly
if the error has one, and a variable exactly if it has one, and the suggestions are those for its
kind. -/
structure IsReport (e : Raised LoadError) (lines : List ReportLine) : Prop where
  message : lines.filterMap ReportLine.message? = [e.message reason]
  file : lines.filterMap ReportLine.path? = e.path?.toList
  variableName : lines.filterMap ReportLine.variableName? = e.variableName?.toList
  suggestions : (lines.filter fun l => l.IsSuggestion) = ReportLine.advice e.kind?

/-- What is found in statements only is found in a report as in its statements. -/
theorem filterMap_reportLines (e : Raised LoadError) {read? : ReportLine → Option String}
    (hempty : read? .empty = none) (hheading : read? .heading = none)
    (h : ∀ l : ReportLine, l.IsSuggestion → read? l = none) :
    (e.reportLines reason).filterMap read? = (e.statements reason).filterMap read? := by
  have hnone : (ReportLine.advice e.kind?).filterMap read? = [] :=
    List.filterMap_eq_nil_iff.2 fun l hl => h l (ReportLine.isSuggestion_of_mem hl)
  simp only [reportLines, List.filterMap_cons, List.filterMap_append, hempty, hheading, hnone,
    List.filterMap_nil, List.append_nil]

theorem filter_statements (e : Raised LoadError) :
    ((e.statements reason).filter fun l => l.IsSuggestion) = [] := by
  unfold statements
  cases e.path? <;> cases e.variableName? <;> rfl

theorem isReport_reportLines (e : Raised LoadError) :
    e.IsReport reason (e.reportLines reason) where
  message := by
    rw [filterMap_reportLines reason e rfl rfl (by rintro _ (_ | _) <;> rfl), statements]
    cases e.path? <;> cases e.variableName? <;> rfl
  file := by
    rw [filterMap_reportLines reason e rfl rfl (by rintro _ (_ | _) <;> rfl), statements]
    cases e.path? <;> cases e.variableName? <;> rfl
  variableName := by
    rw [filterMap_reportLines reason e rfl rfl (by rintro _ (_ | _) <;> rfl), statements]
    cases e.path? <;> cases e.variableName? <;> rfl
  suggestions := by
    have hall : ((ReportLine.advice e.kind?).filter fun l => l.IsSuggestion)
        = ReportLine.advice e.kind? :=
      List.filter_eq_self.2 fun l hl => decide_eq_true (ReportLine.isSuggestion_of_mem hl)
    rw [reportLines, List.filter_cons_of_neg (by decide), List.filter_append, filter_statements,
      List.nil_append, List.filter_cons_of_neg (by decide), List.filter_cons_of_neg (by decide),
      List.filter_append, hall]
    exact List.append_nil _

end Raised

/-! ## The text of a report -/

namespace Report

/-- A detail is a line of its own, where there is one. -/
theorem detail_eq {d : Display} {label : String} {line : String → ReportLine}
    (h : ∀ name, (line name).text d = "  " ++ d.styled .yellow label ++ " " ++ name)
    (name? : Option String) :
    detail d label name? = onNewLines ((name?.map line).toList.map (·.text d)) := by
  have hindent : "\n  " = "\n" ++ "  " := rfl
  cases name? with
  | none => rfl
  | some name =>
    simp only [detail, hindent, Option.map_some, Option.toList_some, List.map_cons, List.map_nil,
      onNewLines_cons, onNewLines_nil, h, String.append_empty, String.append_assoc]

/-- The lines of suggestions, numbered from the given number. -/
def suggestionLines : Nat → List Suggestion → List ReportLine
  | _, [] => []
  | number, s :: rest =>
    .suggestion number s.text ::
      ((s.action?.map .action).toList ++ suggestionLines (number + 1) rest)

theorem suggestionTexts_eq (d : Display) (number : Nat) (suggestions : List Suggestion) :
    suggestionTexts d number suggestions =
      onNewLines ((suggestionLines number suggestions).map (·.text d)) := by
  induction suggestions generalizing number with
  | nil => rfl
  | cons s rest ih =>
    have hindent : "\n  " = "\n" ++ "  " := rfl
    have hdeeper : "\n    " = "\n" ++ "    " := rfl
    obtain ⟨text, action?⟩ := s
    rw [suggestionTexts, ih]
    cases action? <;>
      simp only [suggestionText, suggestionLines, hindent, hdeeper, Option.map_none,
        Option.map_some, Option.toList_none, Option.toList_some, List.nil_append, List.cons_append,
        List.map_cons, onNewLines_cons, ReportLine.text, String.append_empty, String.append_assoc]

/-- The lines of a report behind its message. -/
def linesBehind (r : Report) : List ReportLine :=
  (r.path?.map .file).toList ++ (r.variableName?.map .variableName).toList ++
    .empty :: .heading :: suggestionLines 1 r.type.suggestions

/-- The text of a report is its message and the lines behind it, each on a new line. -/
theorem text_eq (d : Display) (r : Report) :
    r.text d =
      (ReportLine.message r.message).text d ++ onNewLines (r.linesBehind.map (·.text d)) := by
  have hgap : "\n\n" = "\n" ++ ("" ++ "\n") := rfl
  have hmessage : (ReportLine.message r.message).text d =
      d.styled .red "Error:" ++ " " ++ r.message := rfl
  have hfile : ∀ path, (ReportLine.file path).text d =
      "  " ++ d.styled .yellow "File:" ++ " " ++ path := fun _ => rfl
  have hvariable : ∀ name, (ReportLine.variableName name).text d =
      "  " ++ d.styled .yellow "Variable:" ++ " " ++ name := fun _ => rfl
  rw [text, detail_eq hfile, detail_eq hvariable, suggestionTexts_eq, linesBehind, hgap, hmessage]
  simp only [List.map_append, List.map_cons, onNewLines_append, onNewLines_cons,
    String.append_assoc]
  rfl

/-- The report on an error says what is known of the error, and suggests what is advised. -/
theorem ofFailure_ofRaised (reason : String → String) (e : Raised LoadError) :
    ∃ type, ofFailure (.ofRaised reason e)
        = ⟨e.message reason, type, e.path?, e.variableName?⟩ ∧
      suggestionLines 1 type.suggestions = ReportLine.advice e.kind? := by
  rcases e with (⟨path, cause⟩ | ⟨path, cause⟩ | (_ | cause)) | raised
  · exact ⟨.configRead, rfl, rfl⟩
  · exact ⟨.configParse, rfl, rfl⟩
  · exact ⟨.missingVariable, rfl, rfl⟩
  · exact ⟨.unknown, rfl, rfl⟩
  · exact ⟨.unknown, rfl, rfl⟩

/-- The report on an error, as it is printed, is the lines of the report. -/
theorem unlines_lines (d : Display) (reason : String → String) (e : Raised LoadError) :
    unlines ((ofFailure (.ofRaised reason e)).lines d) =
      unlines ((e.reportLines reason).map (·.text d)) := by
  obtain ⟨type, hreport, hadvice⟩ := ofFailure_ofRaised reason e
  have hlines : e.reportLines reason = .empty :: .message (e.message reason) ::
      (linesBehind ⟨e.message reason, type, e.path?, e.variableName?⟩ ++ [.empty]) := by
    simp only [Raised.reportLines, Raised.statements, linesBehind, hadvice, List.append_assoc,
      List.cons_append]
  rw [hreport, lines, text_eq, unlines_cons, unlines_onNewLines_cons, ← unlines_cons, hlines,
    List.map_cons, List.map_cons, List.map_append]
  rfl

end Report

/-! ## Summaries -/

/-- An address in writing: the host, in brackets if it is one of version 6, and the port. -/
inductive SocketAddress.IsWritten (a : SocketAddress) : String → Prop
  | v4 : a.family = .v4 → IsWritten a (a.host ++ ":" ++ toString a.port)
  | v6 : a.family = .v6 → IsWritten a ("[" ++ a.host ++ "]:" ++ toString a.port)

theorem SocketAddress.isWritten_format (a : SocketAddress) : a.IsWritten a.format := by
  rcases a with ⟨host, port, _ | _⟩
  · exact .v4 rfl
  · exact .v6 rfl

/-- What a summary says of a tree. -/
structure Summary where
  source : String
  command : String
  directory : String
  serverAddress : String
  frontAddress : String
  sleepAfter : String
  methods : String

namespace Summary

/-- A summary in writing. -/
def inLines (m : Summary) : List String :=
  [ "Source:           " ++ m.source,
    "Server command:   " ++ m.command,
    "Server directory: " ++ m.directory,
    "Server address:   " ++ m.serverAddress,
    "Public address:   " ++ m.frontAddress,
    "Sleep after:      " ++ m.sleepAfter,
    "Join methods:     " ++ m.methods ]

/-- A summary says what a tree has: where it is from, its command and its server directory, two of
its addresses, the seconds after which the server sleeps, and its join methods. -/
structure IsOf (m : Summary) (v : Json) : Prop where
  source : v.at? ["path"] = some (.string m.source) ∨
    v.at? ["path"] = none ∧ m.source = "environment variables"
  command : v.at? ["server", "command"] = some (.string m.command)
  directory : v.at? ["server", "directory"] = some (.string m.directory)
  serverAddress : ∃ a : SocketAddress,
    v.at? ["server", "address"] = some a.toJson ∧ a.IsWritten m.serverAddress
  frontAddress : ∃ a : SocketAddress,
    v.at? ["public", "address"] = some a.toJson ∧ a.IsWritten m.frontAddress
  sleepAfter : ∃ n : Nat,
    v.at? ["time", "sleep_after"] = some (.ofNat n) ∧ m.sleepAfter = toString n ++ "s"
  methods : ∃ names : List String,
    v.at? ["join", "methods"] = some (.array (names.map .string)) ∧
      m.methods = if names = [] then "(none)" else ", ".intercalate names

end Summary

/-- The summary of a configuration says what its tree has. -/
theorem Config.exists_summary (c : Config) :
    ∃ m : Summary, m.IsOf c.toJson ∧ c.summary = m.inLines := by
  refine ⟨⟨c.path.getD "environment variables", c.server.command, c.server.directory,
    c.server.address.format, c.front.address.format, toString c.time.sleepAfter ++ "s",
    methodText c.join.methods⟩, ?_, ?_⟩
  · refine ⟨?_, rfl, rfl, ⟨_, rfl, c.server.address.isWritten_format⟩,
      ⟨_, rfl, c.front.address.isWritten_format⟩, ⟨_, rfl, rfl⟩,
      ⟨c.join.methods.map JoinMethod.name, ?_, ?_⟩⟩
    · rw [Config.at?_path]
      cases c.path with
      | none => exact .inr ⟨rfl, rfl⟩
      | some path => exact .inl rfl
    · rw [← Part.itemsToJson_texts, List.map_map]
      rfl
    · cases hmethods : c.join.methods <;> simp [methodText]
  · simp only [summary, Summary.inLines, String.append_assoc]

/-! ## What can be seen of actions -/

namespace Transcript

/-- What can be seen where what gives one transcript is followed by what gives another. -/
def followedBy (t u : Transcript) : Transcript :=
  ⟨t.output ++ u.output, t.errorOutput ++ u.errorOutput, t.exitCode?.or u.exitCode?⟩

variable (logger : Logger) (timestamp : String)

theorem ofActions_append (before after : List Action) :
    ofActions logger timestamp (before ++ after) =
      (ofActions logger timestamp before).followedBy (ofActions logger timestamp after) := by
  simp only [ofActions, followedBy, List.map_append, String.join_append, List.findSome?_append]

theorem ofActions_cons (a : Action) (rest : List Action) :
    ofActions logger timestamp (a :: rest) =
      (ofActions logger timestamp [a]).followedBy (ofActions logger timestamp rest) :=
  ofActions_append logger timestamp [a] rest

/-- Entries of the log are seen in the log only. -/
theorem ofActions_log (entries : List LogEntry) :
    ofActions logger timestamp (entries.map .log) =
      ⟨"", logText logger timestamp (entries.map .log), none⟩ := by
  induction entries with
  | nil => rfl
  | cons entry entries ih =>
    rw [List.map_cons, ofActions_cons, ih]
    simp [followedBy, ofActions, logText, Action.output, Action.errorOutput, Action.logOutput,
      Action.exitCode?]

/-- Lines that are printed are seen in the output only. -/
theorem ofActions_print (lines : List String) :
    ofActions logger timestamp (lines.map .print) = ⟨unlines lines, "", none⟩ := by
  induction lines with
  | nil => rfl
  | cons line lines ih =>
    rw [List.map_cons, ofActions_cons, ih]
    simp [followedBy, ofActions, Action.output, Action.errorOutput, Action.exitCode?]

/-- Complaints are seen in the error output only. -/
theorem ofActions_complain (lines : List String) :
    ofActions logger timestamp (lines.map .complain) = ⟨"", unlines lines, none⟩ := by
  induction lines with
  | nil => rfl
  | cons line lines ih =>
    rw [List.map_cons, ofActions_cons, ih]
    simp [followedBy, ofActions, Action.output, Action.errorOutput, Action.exitCode?]

end Transcript

/-! ## The two commands -/

open ConfigCommand (CommandRun)

/-- A command has succeeded: it gives back code 0 and has not left the program, it has printed the
given lines, and it has complained about nothing. -/
structure Succeeds (logger : Logger) (timestamp : String) (entries : List LogEntry)
    (lines : List String) (r : CommandRun) : Prop where
  code : r.code? = some 0
  transcript : Transcript.ofActions logger timestamp r.actions =
    ⟨unlines lines, logText logger timestamp (entries.map .log), none⟩

/-- A command has failed: it has left the program with code 1, once and at its end, it has printed
nothing, and behind the log it has complained in the given lines. -/
structure Fails (logger : Logger) (timestamp : String) (entries : List LogEntry)
    (lines : List String) (r : CommandRun) : Prop where
  code : r.code? = none
  leaves : Leaves 1 r.actions
  transcript : Transcript.ofActions logger timestamp r.actions =
    ⟨"", logText logger timestamp (entries.map .log) ++ unlines lines, some 1⟩

namespace ConfigCommand

variable {s : Surroundings} {path : String} (d : Display) (describe : Config → List String)
  (logger : Logger) (timestamp : String)

theorem loading_of_ok {l : LoadedConfig} (h : (load s path).result = .ok l) :
    Succeeds logger timestamp (load s path).entries (describe l.config)
      (loading s d path describe) := by
  have hrun : loading s d path describe =
      ⟨(load s path).entries.map .log ++ (describe l.config).map .print, some 0⟩ := by
    simp only [loading, h]
  rw [hrun]
  refine ⟨rfl, ?_⟩
  rw [Transcript.ofActions_append, Transcript.ofActions_log, Transcript.ofActions_print]
  simp only [Transcript.followedBy, String.empty_append, String.append_empty, Option.or_none]

theorem loading_of_error {e : Raised LoadError} (h : (load s path).result = .error e) :
    Fails logger timestamp (load s path).entries ((e.reportLines s.reason).map (·.text d))
      (loading s d path describe) := by
  have hrun : loading s d path describe =
      ⟨(load s path).entries.map .log ++ reporting d (.ofRaised s.reason e) ++ [.exit 1],
        none⟩ := by
    simp only [loading, h]
  rw [hrun]
  refine ⟨rfl, ⟨_, rfl, ?_⟩, ?_⟩
  · simp [reporting, Action.exitCode?]
  · rw [Transcript.ofActions_append, Transcript.ofActions_append, Transcript.ofActions_log,
      reporting, Transcript.ofActions_complain, Report.unlines_lines d]
    simp [Transcript.followedBy, Transcript.ofActions, Action.output, Action.errorOutput,
      Action.exitCode?]

end ConfigCommand

/-- Every error of the loading itself has a kind. -/
theorem exists_kind_of_error {s : Surroundings} {candidate : String} {e : LoadError}
    (h : (load s candidate).result = .error (.own e)) : ∃ kind, e.kind? = some kind := by
  rcases Load.namesFile_or_namesNoFile s.files s.directory candidate with ⟨path, hfile⟩ | hnone
  · rw [load_of_namesFile hfile] at h
    have hkind := ((Load.settles_fromFile s path).reason h).kind
    exact hkind.elim (fun h => ⟨_, h⟩) fun h => ⟨_, h⟩
  · rw [load_of_namesNoFile hnone] at h
    exact ⟨_, ((Load.settles_fromEnvironment s).reason h).kind⟩

/-- A command that describes every tree in some lines gives back code 0, and prints at all, exactly
where a tree is loaded. -/
theorem ConfigCommand.loading_iff (s : Surroundings) (d : Display) (path : String)
    (logger : Logger) (timestamp : String) {describe : Config → List String}
    (hdescribe : ∀ c, describe c ≠ []) :
    ((loading s d path describe).code? = some 0 ↔ ∃ l, (load s path).result = .ok l) ∧
    ((Transcript.ofActions logger timestamp (loading s d path describe).actions).output ≠ "" ↔
      ∃ l, (load s path).result = .ok l) := by
  cases hresult : (load s path).result with
  | ok l =>
    have hsucceeds := loading_of_ok d describe logger timestamp hresult
    rw [hsucceeds.code, hsucceeds.transcript]
    exact ⟨by simp, by simpa using unlines_ne_empty (hdescribe l.config)⟩
  | error e =>
    have hfails := loading_of_error d describe logger timestamp hresult
    rw [hfails.code, hfails.transcript]
    simp

/-- **Testing and showing a configuration is all or nothing.** Where a tree is loaded, both commands
give back code 0 and complain of nothing: one prints the line of success and the summary of that
tree, the other its text, which is read as that very tree. Where loading fails, both leave the
program with code 1 and print nothing, and behind the log they make one report: it has the message
of the error, a line for the file and one for the variable exactly if the error has one, and the
suggestions for its kind, which only a foreign error is without. So both succeed in the same
surroundings, those in which a tree is loaded, whatever the display is and whatever stands behind
the name of the command. -/
theorem tests_and_shows (s : Surroundings) (d : Display) (path : String) (extra : List String)
    (logger : Logger) (timestamp : String) :
    let outcome := load s path
    let tested := ConfigCommand.run s d path ("test" :: extra)
    let shown := ConfigCommand.run s d path ("show" :: extra)
    (∀ l, outcome.result = .ok l →
      (∃ m : Summary, m.IsOf l.tree.toJson ∧
        Succeeds logger timestamp outcome.entries
          ((d.styled .green (d.symbol "✓" "OK") ++ " Config is valid") ::
            m.inLines.map ("  " ++ ·)) tested) ∧
      Succeeds logger timestamp outcome.entries [l.config.render] shown ∧
      l.tree.toJson = l.config.toJson ∧
      ∃ v, Json.read? l.config.render.toList = some v ∧ v.readAddresses? = some l.tree.toJson) ∧
    (∀ e, outcome.result = .error e →
      (∀ cause, e = .own cause → ∃ kind, cause.kind? = some kind) ∧
      e.IsReport s.reason (e.reportLines s.reason) ∧
      Fails logger timestamp outcome.entries ((e.reportLines s.reason).map (·.text d)) tested ∧
      Fails logger timestamp outcome.entries ((e.reportLines s.reason).map (·.text d)) shown) ∧
    ∀ r ∈ [tested, shown],
      (r.code? = some 0 ↔ ∃ l, outcome.result = .ok l) ∧
      ((Transcript.ofActions logger timestamp r.actions).output ≠ "" ↔
        ∃ l, outcome.result = .ok l) := by
  intro outcome tested shown
  have htested : tested = ConfigCommand.loading s d path (ConfigCommand.validLines d) := rfl
  have hshown : shown = ConfigCommand.loading s d path fun c => [c.render] := rfl
  rw [htested, hshown]
  refine ⟨fun l hl => ⟨?_, ?_⟩, fun e he => ?_, ?_⟩
  · obtain ⟨m, hm, hlines⟩ := l.config.exists_summary
    have hloaded : l.IsLoaded s := .candidate hl
    have hsucceeds := ConfigCommand.loading_of_ok d (ConfigCommand.validLines d) logger timestamp hl
    rw [ConfigCommand.validLines, hlines] at hsucceeds
    exact ⟨m, hloaded.toJson_tree ▸ hm, hsucceeds⟩
  · have hloaded : l.IsLoaded s := .candidate hl
    refine ⟨ConfigCommand.loading_of_ok d (fun c => [c.render]) logger timestamp hl,
      hloaded.toJson_tree, l.config.shown, Config.read?_render hloaded.wellFormed, ?_⟩
    rw [hloaded.toJson_tree]
    exact Config.readAddresses?_shown hloaded.wellFormed
  · refine ⟨?_, e.isReport_reportLines s.reason,
      ConfigCommand.loading_of_error d _ logger timestamp he,
      ConfigCommand.loading_of_error d _ logger timestamp he⟩
    rintro cause rfl
    exact exists_kind_of_error he
  · intro r hr
    rcases List.mem_pair.1 hr with rfl | rfl
    · exact ConfigCommand.loading_iff s d path logger timestamp fun c => List.cons_ne_nil _ _
    · exact ConfigCommand.loading_iff s d path logger timestamp fun c => List.cons_ne_nil _ _

/-- The same surroundings without variables, and where an address is refused with something that has
no text. -/
def withoutTree : List Surroundings :=
  [ { oneFile with environment := .empty },
    { oneFile with
      environment := oneVariable.set "LAZYMC_PUBLIC_ADDRESS" (some "h:1")
      resolver := fun _ => allTextless } ]

theorem tests_and_shows_oneFile :
    let logger : Logger := ⟨"config", false⟩
    let d : Display := ⟨false, false⟩
    (∃ l m, (load oneFile "a").result = .ok l ∧ Summary.IsOf m l.tree.toJson ∧
      Succeeds logger "T" (load oneFile "a").entries
        ("OK Config is valid" :: m.inLines.map ("  " ++ ·))
        (ConfigCommand.run oneFile d "a" ["test"])) ∧
    ∀ s ∈ withoutTree, ∃ e, (load s "b").result = .error e ∧
      e.IsReport s.reason (e.reportLines s.reason) ∧
      Fails logger "T" (load s "b").entries ((e.reportLines s.reason).map (·.text d))
        (ConfigCommand.run s d "b" ["show"]) := by
  intro logger d
  constructor
  · obtain ⟨l, hl⟩ := exists_ok (x := (load oneFile "a").result) (by decide +kernel)
    obtain ⟨⟨m, hm, hsucceeds⟩, -⟩ := (tests_and_shows oneFile d "a" [] logger "T").1 l hl
    exact ⟨l, m, hl, hm, hsucceeds⟩
  · intro s hs
    have herror : ∃ e, (load s "b").result = .error e := by
      rcases List.mem_pair.1 hs with rfl | rfl
      · exact ⟨_, rfl⟩
      · exact ⟨_, rfl⟩
    obtain ⟨e, he⟩ := herror
    obtain ⟨-, hreport, -, hfails⟩ := (tests_and_shows s d "b" [] logger "T").2.1 e he
    exact ⟨e, he, hreport, hfails⟩

end WakeConfig
