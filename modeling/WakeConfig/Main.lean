import Std.Time.Format
import WakeConfig.CommandLine.Run
import WakeConfig.Net.HostTable

/-!
# The program

The outer layer: it collects the arguments, the variables and what the system says about the
configuration file, runs the program on that, and performs the actions.
-/

namespace WakeConfig.Program

/-- The fault that a refusal of the system means. -/
def faultOf : IO.Error → FileFault
  | .noFileOrDirectory _ _ _ => .noEntry
  | .inappropriateType _ 21 _ => .isDirectory
  | .inappropriateType _ _ _ => .notDirectory
  | .permissionDenied _ _ _ => .other "EACCES" "permission denied"
  | .invalidArgument _ 36 _ => .nameTooLong
  | .resourceExhausted _ 36 _ => .nameTooLong
  | e => .other "EIO" (toString e)

/-- What the system answers, or why it refuses. -/
def attempt (action : IO α) : IO (Except FileFault α) := do
  match ← action.toBaseIO with
  | .ok a => pure (.ok a)
  | .error e => pure (.error (faultOf e))

/-- The kind of a file as the system names it. -/
def kindOf : IO.FS.FileType → FileKind
  | .file => .file
  | .dir => .directory
  | _ => .other

/-- Asks the system about one path: what it leads to, and the content of that. -/
def look (path : String) : IO FileAccess := do
  let real ← attempt (do pure (← IO.FS.realPath path).toString)
  let kind ← attempt (do pure (kindOf (← (← IO.FS.realPath path).metadata).type))
  let content ← attempt (do pure (← IO.FS.readBinFile path).toList)
  pure
    { realPath := fun p => real.mapError fun fault => ⟨.realpath p, fault⟩
      kind := fun p => kind.mapError fun fault => ⟨.stat p, fault⟩
      content := fun p => content.mapError fun fault => ⟨.open p, fault⟩ }

/-- The system that the program is made for: its paths are those of files with slashes. -/
def platform : Platform := .other

/-- The variables that the program reads. -/
def variableNames : List String :=
  (VariableDoc.all platform).map VariableDoc.name ++ ["LAZYMC_DEBUG", "NO_COLOR", "TERM"]

/-- The environment of the program. -/
def readEnvironment : IO Environment := do
  let values ← variableNames.mapM fun name => do pure ((← IO.getEnv name).map (name, ·))
  pure ⟨values.filterMap id⟩

/-- The names that the system's own table has. -/
def readHosts : IO HostTable := do
  match ← attempt (IO.FS.readFile "/etc/hosts") with
  | .ok text => pure (HostTable.read text)
  | .error _ => pure ⟨[]⟩

/-- The text of the manifest beside the program, if it can be read. -/
def readManifest : IO (Option String) := do
  match ← attempt (do IO.FS.readFile ((← IO.appDir) / "package.json")) with
  | .ok text => pure (some text)
  | .error _ => pure none

/-- The reason that is shown for a text that is no document. The reader of documents gives none, so
this is the same for all. -/
def reason (_ : String) : String := "The text is no TOML document"

/-- The time, to the millisecond. -/
def timestamp : IO String := do
  let now := Std.Time.DateTime.ofTimestampWithZone (← Std.Time.Timestamp.now) Std.Time.TimeZone.UTC
  pure (now.format "uuuu-MM-dd'T'HH:mm:ss.SSS'Z'")

/-- What the program runs in. -/
def surroundings (arguments : List String) : IO Surroundings := do
  let directory := (← IO.currentDir).toString
  let candidate := match Arguments.read arguments with
    | .ok a => a.configPath
    | .error _ => Default.configFile
  let files ← look (Path.resolve directory candidate)
  pure ⟨files, directory, ← readEnvironment, (← readHosts).resolver, platform, reason⟩

/-- Performs an action. -/
def perform (logger : Logger) (action : Action) : IO Unit := do
  IO.print action.output
  IO.eprint (action.errorOutput logger (← timestamp))

end WakeConfig.Program

/-- Runs the program on its arguments. -/
def main (arguments : List String) : IO UInt32 := do
  let s ← WakeConfig.Program.surroundings arguments
  let isTerminal ← (← IO.getStdout).isTty
  let manifest? ← WakeConfig.Program.readManifest
  let actions := WakeConfig.CommandLine.run s manifest? isTerminal arguments
  actions.forM (WakeConfig.Program.perform (WakeConfig.CommandLine.logger s.environment))
  pure (UInt32.ofNat ((actions.findSome? WakeConfig.Action.exitCode?).getD 0))
