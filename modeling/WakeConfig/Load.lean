import WakeConfig.Config.FromEnvironment
import WakeConfig.Config.FromToml
import WakeConfig.Files.Access
import WakeConfig.Log
import WakeConfig.Version

/-!
# Loading the configuration

The configuration comes from exactly one source. Where the candidate path leads to a regular file,
that file is the only source; everywhere else the environment is. The tree that is loaded is sealed
throughout, its server directory is taken from where the file is, and it names the file that it
comes from. A foreign error that comes up while a name is looked up ends the loading, and is passed
on as it is.
-/

namespace WakeConfig

/-! ## Errors -/

/-- The kind of a failure to load. -/
inductive LoadKind where
  | read
  | parse
  | missingVariable
  deriving Repr, DecidableEq

/-- The word for a kind. -/
def LoadKind.word : LoadKind → String
  | read => "read"
  | parse => "parse"
  | missingVariable => "missing_env"

/-- Why no configuration was loaded: its file could not be read, or is no configuration, or the
environment is none. -/
inductive LoadError where
  | unreadable (path : String) (cause : AccessError)
  | malformed (path : String) (cause : ConfigError)
  | environment (cause : FromEnvironment.EnvironmentError)
  deriving Repr, DecidableEq

namespace LoadError

/-- The kind of an error. An address error from the environment would have none. -/
def kind? : LoadError → Option LoadKind
  | unreadable _ _ => some .read
  | malformed _ _ => some .parse
  | environment .missingCommand => some .missingVariable
  | environment (.badDefault _) => none

/-- The file that an error is about. -/
def path? : LoadError → Option String
  | unreadable path _ => some path
  | malformed path _ => some path
  | environment _ => none

/-- The variable that an error is about. -/
def variableName? : LoadError → Option String
  | environment .missingCommand => some Default.commandVariable
  | _ => none

/-- The wording of an error, where `reason` has the reasons for which texts are refused as
documents. -/
def message (reason : String → String) : LoadError → String
  | unreadable _ cause => "Failed to load config: " ++ cause.message
  | malformed _ cause => "Failed to load config: " ++ cause.message reason
  | environment cause => cause.message

end LoadError

/-! ## Outcomes -/

/-- A configuration with its tree of parts. -/
structure LoadedConfig where
  config : Config
  tree : Part

/-- Where a configuration is loaded. The reader of TOML documents has a reason for each text that it
refuses. -/
structure Surroundings where
  files : FileAccess
  directory : String
  environment : Environment
  resolver : HostResolver
  platform : Platform
  reason : String → String

/-- The outcome of loading, with the entries for the log and the host names that were looked up. -/
structure LoadOutcome where
  result : Except (Raised LoadError) LoadedConfig
  entries : List LogEntry
  lookups : List String

namespace Load

/-! ## Finishing a tree -/

/-- The configuration with its origin, and the server directory that follows from it. -/
def located (directory : String) (path? : Option String) (c : Config) : Config :=
  { c with
    path := path?
    server := { c.server with
      directory := Path.serverDirectory directory c.server.directory path? } }

/-- The finished configuration and its sealed tree. -/
def finish (directory : String) (path? : Option String) (common : CommonParts) (c : Config) :
    LoadedConfig :=
  let config := located directory path? c
  ⟨config, (config.part common).close⟩

/-! ## Entries -/

/-- An entry whose data are an object. -/
def entry (level : LogLevel) (event : String) (members : List (String × LogData)) : LogEntry :=
  ⟨level, event, some (.object members)⟩

/-- An entry about a path that could not be followed. -/
def pathEntry (event path : String) (e : AccessError) : LogEntry :=
  entry .debug event [("path", .string path), ("error", .error e.name e.message)]

/-- The warning about the declared version, if there is one. -/
def versionEntries (path : String) (declared? : Option String) : List LogEntry :=
  let check := Version.check Default.configVersion declared?
  match check.warning? with
  | none => []
  | some warning =>
    [entry .warn ("config_version_" ++ check.status)
      [("message", .string warning), ("path", .string path)]]

/-! ## The two sources -/

/-- Loads a configuration file. -/
def fromFile (s : Surroundings) (path : String) : LoadOutcome :=
  match s.files.readText s.directory path with
  | .error cause => ⟨.error (.own (.unreadable path cause)), [], []⟩
  | .ok text =>
    let outcome := FromToml.parse s.platform s.resolver text
    match outcome.result with
    | .error cause => ⟨.error (cause.map (.malformed path)), [], outcome.lookups⟩
    | .ok config =>
      ⟨.ok (finish s.directory (some path) outcome.common config),
        versionEntries path config.format.version
          ++ [entry .debug "config_loaded" [("source", .string "file"), ("path", .string path)]],
        outcome.lookups⟩

/-- Loads the configuration of the environment. -/
def fromEnvironment (s : Surroundings) : LoadOutcome :=
  let outcome := FromEnvironment.read s.platform s.resolver s.environment
  match outcome.result with
  | .error cause => ⟨.error (cause.map .environment), [], outcome.trace.lookups⟩
  | .ok config =>
    ⟨.ok (finish s.directory none .none config),
      [entry .debug "config_loaded" [("source", .string "env")]], outcome.trace.lookups⟩

/-! ## Choosing the source -/

/-- The canonical path of a candidate. A valid path that cannot be followed stays as it is in its
absolute form. -/
def canonical? (s : Surroundings) (candidate : String) : Option String × List LogEntry :=
  match FileAccess.validPath s.directory candidate with
  | .error e => (none, [pathEntry "config_path_invalid" candidate (.path e)])
  | .ok full =>
    match s.files.canonical s.directory full with
    | .ok real => (some real, [])
    | .error e => (some full, [pathEntry "config_path_not_canonical" full e])

/-- Whether a path leads to a regular file. -/
def isRegular (s : Surroundings) (path : String) : Bool × List LogEntry :=
  match s.files.status s.directory path with
  | .ok kind? => (kind? == some .file, [])
  | .error e => (false, [pathEntry "config_path_not_accessible" path e])

/-- The canonical path of a candidate that leads to a regular file. -/
def source? (s : Surroundings) (candidate : String) : Option String × List LogEntry :=
  match canonical? s candidate with
  | (none, entries) => (none, entries)
  | (some path, entries) =>
    let (regular, more) := isRegular s path
    (if regular then some path else none, entries ++ more)

/-- The entry that says that the environment is the source. -/
def absentEntry (path : String) : LogEntry :=
  entry .info "config_file_not_found"
    [ ("path", .string path),
      ("message", .string
        s!"Config file not found at {path}, using environment variables and defaults") ]

/-- The path by which a candidate that is no source is named. -/
def shownPath (s : Surroundings) (candidate : String) : String :=
  (canonical? s candidate).1.getD candidate

/-- Adds entries before those of an outcome. -/
def after (entries : List LogEntry) (o : LoadOutcome) : LoadOutcome :=
  { o with entries := entries ++ o.entries }

end Load

/-- Loads the configuration of a candidate path. -/
def load (s : Surroundings) (candidate : String) : LoadOutcome :=
  match Load.source? s candidate with
  | (some path, entries) => Load.after entries (Load.fromFile s path)
  | (none, entries) =>
    Load.after (entries ++ [Load.absentEntry (Load.shownPath s candidate)]) (Load.fromEnvironment s)

end WakeConfig
