import ConcurrencyLint.Cli.Arguments

/-!
# Help

What the program says about itself.
-/

namespace ConcurrencyLint.Cli

def programName : String := "concurrency-guard"

def versionText : String := programName ++ " 0.1.0\n"

/-- Lines, each with its end. -/
def unlines (lines : List String) : String := String.join (lines.map (· ++ "\n"))

def programOpening : List String := [
  "CLI tool for concurrency-guard, the Swift concurrency linter",
  "",
  "Usage: concurrency-guard [OPTIONS] [PATHS]...",
  "       concurrency-guard <COMMAND>",
  "",
  "Commands:",
  "  list-rules  List available rules",
  "  init        Initialize configuration file",
  "  help        Print this message or the help of the given subcommand(s)",
  ""]

def programBrief : List String := [
  "Arguments:",
  "  [PATHS]...  Swift files or directories to analyze (default: current directory)",
  "",
  "Options:",
  "  -v, --verbose            Enable verbose output",
  "  -c, --config <CONFIG>    Path to configuration file",
  "      --stdin              Read source from stdin",
  "  -f, --format <FORMAT>    Output format [default: text] [possible values: text, compact, json, rich]",
  "      --rules <RULES>      Only run specific rules (comma-separated names or codes)",
  "  -e, --exclude <EXCLUDE>  Exclude patterns (can be specified multiple times)",
  "  -h, --help               Print help (see more with '--help')",
  "  -V, --version            Print version"]

def programAtLength : List String := [
  "Arguments:",
  "  [PATHS]...",
  "          Swift files or directories to analyze (default: current directory)",
  "",
  "Options:",
  "  -v, --verbose",
  "          Enable verbose output",
  "",
  "  -c, --config <CONFIG>",
  "          Path to configuration file",
  "",
  "      --stdin",
  "          Read source from stdin",
  "",
  "  -f, --format <FORMAT>",
  "          Output format",
  "",
  "          Possible values:",
  "          - text:    `OK`, or one `VIOLATION:` line per finding",
  "          - compact: One-line-per-violation compact format with column and severity",
  "          - json:    JSON output",
  "          - rich:    Graphical diagnostics with source snippets",
  "          ",
  "          [default: text]",
  "",
  "      --rules <RULES>",
  "          Only run specific rules (comma-separated names or codes)",
  "",
  "  -e, --exclude <EXCLUDE>",
  "          Exclude patterns (can be specified multiple times)",
  "",
  "  -h, --help",
  "          Print help (see a summary with '-h')",
  "",
  "  -V, --version",
  "          Print version"]

/-- The switches that every subcommand has. -/
def sharedSwitches : List String := [
  "  -v, --verbose          Enable verbose output",
  "  -c, --config <CONFIG>  Path to configuration file",
  "  -h, --help             Print help"]

def HelpTopic.text : HelpTopic → String
  | .program false => unlines (programOpening ++ programBrief)
  | .program true => unlines (programOpening ++ programAtLength)
  | .listRules =>
    unlines (["List available rules", "", "Usage: concurrency-guard list-rules [OPTIONS]", "",
      "Options:"] ++ sharedSwitches)
  | .init =>
    unlines (["Initialize configuration file", "", "Usage: concurrency-guard init [OPTIONS]", "",
      "Options:", "      --force            Overwrite existing config"] ++ sharedSwitches)
  | .help =>
    unlines ["Print this message or the help of the given subcommand(s)", "",
      "Usage: concurrency-guard help [COMMAND]...", "",
      "Arguments:", "  [COMMAND]...  Print help for the subcommand(s)"]

end ConcurrencyLint.Cli
