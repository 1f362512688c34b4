import WakeConfig.Text.Json.Reader

/-!
# Help

The texts that the program prints about itself. Its version is declared in a manifest beside it.
-/

namespace WakeConfig.Help

/-- The version of the program: the text that its manifest, a JSON object, has under that name. Of
several the last counts. -/
def programVersion (manifest? : Option String) : String :=
  match manifest?.bind fun text => Json.read? text.toList with
  | some (.object members) =>
    match members.reverse.lookup "version" with
    | some (.string version) => version
    | _ => "(unknown)"
  | _ => "(unknown)"

/-- A text of lines, with an empty line before and behind. -/
def paragraph (lines : List String) : String := "\n" ++ "\n".intercalate lines ++ "\n"

/-- The help of the program. -/
def overview : String :=
  paragraph
    [ "lazymc - wake a game server on demand, sleep it when idle",
      "",
      "USAGE:",
      "  lazymc [--config <path>] <command>",
      "",
      "COMMANDS:",
      "  config test   Load and validate the configuration",
      "  config show   Print the resolved configuration as JSON",
      "  config env    List supported LAZYMC_* environment variables",
      "  help          Show this help message",
      "  version       Show version information",
      "",
      "OPTIONS:",
      "  --config, -c <path>   Config file (default: lazymc.toml). When the file does",
      "                        not exist, configuration is read from LAZYMC_*",
      "                        environment variables instead.",
      "  --help, -h            Show help for a command",
      "  --version, -v         Show version information",
      "",
      "EXAMPLES:",
      "  lazymc config test",
      "  lazymc -c /srv/mc/lazymc.toml config show",
      "  LAZYMC_SERVER_COMMAND=\"java -jar server.jar\" lazymc config test" ]

/-- The help of the command `config`. -/
def config : String :=
  paragraph
    [ "USAGE: lazymc [--config <path>] config <test|show|env>",
      "",
      "Loads configuration from the config file if it exists, otherwise from",
      "LAZYMC_* environment variables. LAZYMC_SERVER_COMMAND is required when",
      "no config file is used.",
      "",
      "SUBCOMMANDS:",
      "  test   Validate and print a summary",
      "  show   Print the resolved configuration as JSON",
      "  env    List supported environment variables and their defaults",
      "",
      "EXAMPLES:",
      "  lazymc config test --config lazymc.toml",
      "  lazymc config env" ]

/-- Names under which every table of topics has an entry before anything is put into it, each with
the kind of that entry. -/
def innate : List (String × String) :=
  [ ("__proto__", "[Object: null prototype] \x7b\x7d"),
    ("constructor", "[Function: Object]"),
    ("__defineGetter__", "[Function: __defineGetter__]"),
    ("__defineSetter__", "[Function: __defineSetter__]"),
    ("__lookupGetter__", "[Function: __lookupGetter__]"),
    ("__lookupSetter__", "[Function: __lookupSetter__]"),
    ("hasOwnProperty", "[Function: hasOwnProperty]"),
    ("isPrototypeOf", "[Function: isPrototypeOf]"),
    ("propertyIsEnumerable", "[Function: propertyIsEnumerable]"),
    ("toLocaleString", "[Function: toLocaleString]"),
    ("toString", "[Function: toString]"),
    ("valueOf", "[Function: valueOf]") ]

/-- The help on a topic. -/
def topic? (name : String) : Option String :=
  if name = "config" then some config else innate.lookup name

end WakeConfig.Help
