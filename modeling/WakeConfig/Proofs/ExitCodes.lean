import WakeConfig.CommandLine.Run
import WakeConfig.Files.Tree

/-!
# Exit codes

How a run of the program ends. It leaves the program once, at its end, with code 0 or 1. With code 1
it has complained and printed nothing, and with code 0 it has not complained (`run_ends`), but for
one thing that can be asked for: help on a topic that there is none on is complained about with
code 0. `exitCode_of_run` reads this off what is written to the two outputs.
-/

namespace WakeConfig

/-! ## What actions write -/

namespace Action

/-- The line of a complaint. -/
def complaint? : Action → Option String
  | complain line => some line
  | _ => none

/-- The line that is printed. -/
def printed? : Action → Option String
  | print line => some line
  | _ => none

/-- What an action writes to the standard error as lines of the log. -/
def logOutput (logger : Logger) (timestamp : String) : Action → String
  | log entry => String.join (logger.write timestamp entry)
  | _ => ""

/-- The complaints among some actions. -/
def complaints (actions : List Action) : List String := actions.filterMap complaint?

/-- The lines that some actions print. -/
def printedLines (actions : List Action) : List String := actions.filterMap printed?

/-- The lines of the log that some actions write. -/
def logText (logger : Logger) (timestamp : String) (actions : List Action) : String :=
  String.join (actions.map (logOutput logger timestamp))

end Action

open WakeConfig.Action (complaints printedLines logText)

/-- Without a line to print nothing is written to the standard output. -/
theorem output_of_printedLines {actions : List Action} (h : printedLines actions = []) :
    String.join (actions.map Action.output) = "" := by
  induction actions with
  | nil => rfl
  | cons a rest ih =>
    cases a with
    | print line => cases h
    | _ => simp [Action.output, ih h]

/-- Every complaint makes what is written to the standard error longer than the lines of the log. -/
theorem length_logText_add_le (logger : Logger) (timestamp : String) (actions : List Action) :
    (logText logger timestamp actions).length + (complaints actions).length ≤
      (String.join (actions.map (Action.errorOutput logger timestamp))).length := by
  induction actions with
  | nil => exact Nat.le_refl _
  | cons a rest ih =>
    cases a with
    | complain line =>
      have hbreak : "\n".length = 1 := rfl
      simp [logText, complaints, Action.errorOutput, Action.logOutput, Action.complaint?] at ih ⊢
      omega
    | _ =>
      simp [logText, complaints, Action.errorOutput, Action.logOutput, Action.complaint?,
        List.filterMap_cons] at ih ⊢
      omega

/-- More than the lines of the log is written to the standard error exactly if there is a
complaint. -/
theorem errorOutput_ne_logText_iff (logger : Logger) (timestamp : String) (actions : List Action) :
    String.join (actions.map (Action.errorOutput logger timestamp)) ≠
      logText logger timestamp actions ↔ complaints actions ≠ [] := by
  refine not_congr ⟨fun h => ?_, fun h => ?_⟩
  · have hlength := length_logText_add_le logger timestamp actions
    rw [h] at hlength
    cases hc : complaints actions with
    | nil => rfl
    | cons line rest =>
      rw [hc, List.length_cons] at hlength
      omega
  · refine congrArg String.join (List.map_congr_left fun a ha => ?_)
    cases a with
    | complain line =>
      have hmem : line ∈ complaints actions := List.mem_filterMap.2 ⟨_, ha, rfl⟩
      rw [h] at hmem
      cases hmem
    | _ => rfl

/-! ## How a run ends -/

/-- Actions leave the program with a code: once, and with that they end. -/
def Leaves (code : Nat) (actions : List Action) : Prop :=
  ∃ before, actions = before ++ [.exit code] ∧ before.filterMap Action.exitCode? = []

/-- Actions end well, without a complaint, or badly, with a complaint and nothing printed. -/
inductive EndsTruly : List Action → Prop
  | well {actions : List Action} :
      Leaves 0 actions → complaints actions = [] → EndsTruly actions
  | badly {actions : List Action} :
      Leaves 1 actions → complaints actions ≠ [] → printedLines actions = [] → EndsTruly actions

namespace CommandLine

/-- Arguments ask for help on a topic that there is none on. -/
def AsksUnknownTopic (arguments : List String) : Prop :=
  ∃ a name, Arguments.read arguments = .ok a ∧ a.command ∈ helpCommands ∧
    a.rest.head? = some name ∧ Help.topic? name = none

/-- What is left to a command that prints lines and succeeds. -/
theorem endsTruly_print (logged : List LogEntry) (lines : List String) :
    EndsTruly (logged.map .log ++ lines.map .print ++ [.exit 0]) := by
  refine .well ⟨_, rfl, ?_⟩ ?_
  · simp [Action.exitCode?]
  · simp [complaints, Action.complaint?]

/-- What is left to a command that complains and fails. -/
theorem endsTruly_complain (logged : List LogEntry) (line : String) (lines : List String) :
    EndsTruly (logged.map .log ++ (line :: lines).map .complain ++ [.exit 1]) := by
  refine .badly ⟨_, rfl, ?_⟩ ?_ ?_
  · simp [Action.exitCode?]
  · simp [complaints, Action.complaint?]
  · refine List.filterMap_eq_nil_iff.2 ?_
    simp only [List.mem_append, List.mem_map, List.mem_singleton]
    rintro a ((⟨entry, -, rfl⟩ | ⟨line, -, rfl⟩) | rfl) <;> rfl

theorem endsTruly_loading (s : Surroundings) (d : Display) (path : String)
    (describe : Config → List String) :
    EndsTruly (leaving (ConfigCommand.loading s d path describe)) := by
  cases hresult : (load s path).result with
  | ok l =>
    have hrun : ConfigCommand.loading s d path describe =
        ⟨(load s path).entries.map .log ++ (describe l.config).map .print, some 0⟩ := by
      simp only [ConfigCommand.loading, hresult]
    rw [hrun]
    exact endsTruly_print _ _
  | error e =>
    have hrun : ConfigCommand.loading s d path describe =
        ⟨(load s path).entries.map .log ++ ConfigCommand.reporting d (.ofRaised s.reason e)
          ++ [.exit 1], none⟩ := by
      simp only [ConfigCommand.loading, hresult]
    rw [hrun]
    exact endsTruly_complain _ _ _

theorem endsTruly_refused (what : String) : EndsTruly (leaving (ConfigCommand.refused what)) :=
  endsTruly_complain [] _ [_]

theorem endsTruly_config (s : Surroundings) (d : Display) (path : String) (words : List String) :
    EndsTruly (leaving (ConfigCommand.run s d path words)) := by
  unfold ConfigCommand.run
  split
  · exact endsTruly_loading s d path _
  · exact endsTruly_loading s d path _
  · exact endsTruly_print [] ((VariableDoc.all s.platform).flatMap ConfigCommand.variableLines)
  · exact endsTruly_refused _
  · exact endsTruly_refused _

/-- A run ends truly unless it asks for help on an unknown topic. -/
theorem run_ends (s : Surroundings) (manifest? : Option String) (isTerminal : Bool)
    {arguments : List String} (h : ¬ AsksUnknownTopic arguments) :
    EndsTruly (run s manifest? isTerminal arguments) := by
  unfold run
  split
  · exact endsTruly_complain [] _ [_]
  · rename_i a hread
    unfold dispatch
    split
    · rename_i hhelp
      split
      · rename_i name hname
        rw [helpOn]
        cases htopic : Help.topic? name with
        | some text => exact endsTruly_print [] [text]
        | none => exact absurd ⟨a, name, hread, hhelp, hname, htopic⟩ h
      · exact endsTruly_print [] [_]
    · split
      · exact endsTruly_print [] [_]
      · split
        · split
          · exact endsTruly_print [] [_]
          · exact endsTruly_config s _ _ _
        · exact endsTruly_complain [] _ [_]

/-- Help on an unknown topic is complained about, and the code is 0. -/
theorem run_of_asksUnknownTopic (s : Surroundings) (manifest? : Option String) (isTerminal : Bool)
    {arguments : List String} (h : AsksUnknownTopic arguments) :
    Leaves 0 (run s manifest? isTerminal arguments) ∧
      complaints (run s manifest? isTerminal arguments) ≠ [] := by
  obtain ⟨a, name, hread, hhelp, hname, htopic⟩ := h
  have hrun : run s manifest? isTerminal arguments = helpOn name ++ [.exit 0] := by
    simp only [run, hread, dispatch, if_pos hhelp, hname]
  rw [hrun, helpOn, htopic]
  exact ⟨⟨_, rfl, rfl⟩, List.cons_ne_nil _ _⟩

end CommandLine

/-! ## Exit codes -/

open CommandLine (AsksUnknownTopic)

theorem Leaves.transcript {code : Nat} {actions : List Action} (h : Leaves code actions) :
    actions.filterMap Action.exitCode? = [code] ∧ actions.getLast? = some (.exit code) ∧
      actions.findSome? Action.exitCode? = some code := by
  obtain ⟨before, rfl, hbefore⟩ := h
  have hcodes : (before ++ [Action.exit code]).filterMap Action.exitCode? = [code] := by
    rw [List.filterMap_append, hbefore]
    rfl
  refine ⟨hcodes, List.getLast?_concat, ?_⟩
  rw [← List.head?_filterMap, hcodes]
  rfl

/-- **The exit code tells whether there was an error**, but for help on an unknown topic. Whatever
the arguments, the manifest, the environment and the files are, a run leaves the program once, and
with that it ends; the code is 0 or 1. More than lines of the log is written to the standard error
exactly if the code is 1 or there is no help on the topic that is asked for, which has code 0. With
code 1 nothing is written to the standard output. -/
theorem exitCode_of_run (s : Surroundings) (manifest? : Option String) (isTerminal : Bool)
    (arguments : List String) (logger : Logger) (timestamp : String) :
    let actions := CommandLine.run s manifest? isTerminal arguments
    let transcript := Transcript.ofActions logger timestamp actions
    ∃ code, actions.filterMap Action.exitCode? = [code] ∧
      actions.getLast? = some (.exit code) ∧ transcript.exitCode? = some code ∧
      (code = 0 ∨ code = 1) ∧
      (transcript.errorOutput ≠ logText logger timestamp actions ↔
        code = 1 ∨ AsksUnknownTopic arguments) ∧
      (AsksUnknownTopic arguments → code = 0) ∧
      (code = 1 → transcript.output = "") := by
  intro actions transcript
  have herror : transcript.errorOutput ≠ logText logger timestamp actions ↔
      complaints actions ≠ [] := errorOutput_ne_logText_iff logger timestamp actions
  by_cases htopic : AsksUnknownTopic arguments
  · obtain ⟨hleaves, hcomplains⟩ :=
      CommandLine.run_of_asksUnknownTopic s manifest? isTerminal htopic
    obtain ⟨hcodes, hlast, hcode⟩ := hleaves.transcript
    refine ⟨0, hcodes, hlast, hcode, .inl rfl, ?_, fun _ => rfl, nofun⟩
    exact ⟨fun _ => .inr htopic, fun _ => herror.2 hcomplains⟩
  · cases CommandLine.run_ends s manifest? isTerminal htopic with
    | well hleaves hcomplaints =>
      obtain ⟨hcodes, hlast, hcode⟩ := hleaves.transcript
      refine ⟨0, hcodes, hlast, hcode, .inl rfl, ?_, fun _ => rfl, nofun⟩
      exact ⟨fun h => absurd hcomplaints (herror.1 h), fun h => nomatch h.resolve_right htopic⟩
    | badly hleaves hcomplaints hprinted =>
      obtain ⟨hcodes, hlast, hcode⟩ := hleaves.transcript
      refine ⟨1, hcodes, hlast, hcode, .inr rfl, ?_, fun h => absurd h htopic, fun _ => ?_⟩
      · exact ⟨fun _ => .inl rfl, fun _ => herror.2 hcomplaints⟩
      · exact output_of_printedLines hprinted

/-- Surroundings with nothing in them. -/
def nowhere : Surroundings where
  files := FileTree.empty.access
  directory := "/"
  environment := .empty
  resolver := fun _ _ => .addresses []
  platform := .other
  reason := fun _ => ""

/-- Asked for help on `bogus`, a run complains that there is no such command and leaves with
code 0. -/
theorem exitCode_unknownTopic :
    let actions := CommandLine.run nowhere none false ["help", "bogus"]
    let transcript := Transcript.ofActions ⟨"config", false⟩ "T" actions
    transcript = ⟨"", "Unknown command: bogus\n\n" ++
      "Run \"lazymc help\" to see all available commands.\n", some 0⟩ ∧
    ¬ ∃ code, transcript.exitCode? = some code ∧
      (code = 1 ↔ transcript.errorOutput ≠ logText ⟨"config", false⟩ "T" actions) := by
  intro actions transcript
  have htranscript : transcript = ⟨"", "Unknown command: bogus\n\n" ++
      "Run \"lazymc help\" to see all available commands.\n", some 0⟩ := by decide +kernel
  have hlog : logText ⟨"config", false⟩ "T" actions = "" := by decide +kernel
  refine ⟨htranscript, ?_⟩
  rw [htranscript, hlog]
  rintro ⟨code, hcode, htruth⟩
  obtain rfl := Option.some.inj hcode
  exact absurd (htruth.2 (by decide)) (by decide)

end WakeConfig
