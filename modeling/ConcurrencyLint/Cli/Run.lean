import ConcurrencyLint.Cli.Help
import ConcurrencyLint.Config.Source
import ConcurrencyLint.Rule.Selection
import ConcurrencyLint.Swift

/-!
# Running commands

A run is a function of its arguments and its environment. What it does is described by an outcome:
the exit status, what is printed, and the file that is written, if any.
-/

namespace ConcurrencyLint.Cli

/-- What a run finds. -/
structure Environment where
  files : FileSystem
  grammar : String → Except ParseError ParseTree
  /-- The directory of the user's configuration, where it is not below the home directory. -/
  configDirectory : Option String := none
  stdin : ByteArray := .empty

/-- What a run does. -/
structure Outcome where
  status : Nat
  stdout : String := ""
  /-- The lines on standard error. -/
  stderr : List String := []
  /-- What a verbose run adds on standard error. -/
  details : List String := []
  /-- The file written in the working directory, with its text. -/
  written : Option (String × String) := none

/-- The files after a run. -/
def Outcome.filesAfter (o : Outcome) (files : FileSystem) : FileSystem :=
  match o.written with
  | some (name, text) => files.writeHere name text
  | none => files

/-! ## Exit status -/

def cleanStatus : Nat := 0

def violationStatus : Nat := 1

def inputErrorStatus : Nat := 2

/-- Violations at the threshold come first, then input errors. -/
def exitStatus (r : Report) (threshold : Severity) : Nat :=
  if r.reaches threshold then violationStatus
  else if r.hasInputErrors then inputErrorStatus
  else cleanStatus

/-! ## Checking -/

/-- Why a check does not start. -/
inductive StartError where
  | config (cause : ConfigError)
  | analyzer (cause : AnalysisError)
  deriving DecidableEq, Repr

/-- A bad pattern is named by the failure and again as its cause. -/
def StartError.message : StartError → String
  | .config cause => cause.message
  | .analyzer (.badPattern cause) =>
    "Failed to build analyzer: " ++ (AnalysisError.badPattern cause).message ++ ": "
      ++ cause.message
  | .analyzer cause => "Failed to build analyzer: " ++ cause.message

/-- A character as warnings show it. Those that a terminal would act on are written as their code;
line feeds and tabs stay. -/
def shownChar (c : Char) : String :=
  let code := c.toNat
  if [0x07, 0x08, 0x0C, 0x1B, 0x7F].contains code then
    "\\x" ++ Text.hex2 Text.lowerHexDigits code
  else if 0x80 ≤ code ∧ code ≤ 0x9F then
    "\\u\x7b" ++ Text.hex2 Text.lowerHexDigits code ++ "\x7d"
  else c.toString

/-- The line of a warning. -/
def warningLine (message : String) : String :=
  message.toList.foldl (fun line c => line ++ shownChar c) "WARN "

/-- The line of an error. -/
def errorLine (message : String) : String := "error: " ++ message

/-- The inputs of a check; without any, the working directory. -/
def CheckOptions.inputs (o : CheckOptions) : List String :=
  if o.paths.isEmpty ∧ ¬ o.readsStdin then ["."] else o.paths

/-- The directory of the user's configuration. -/
def Environment.userDirectory (env : Environment) : Option String :=
  env.configDirectory.or (env.files.home.map (Path.join · ".concurrency-guard"))

/-- The places where a check looks for its configuration. -/
def CheckOptions.configPlaces (o : CheckOptions) (env : Environment) : ConfigPlaces where
  requested := o.config
  project := ConfigPlaces.projectOf env.files o.inputs
  user := env.userDirectory

/-- The rules of a check, with what is said about them. -/
def CheckOptions.chooseRules (o : CheckOptions) (config : Config) : Logged (List Rule) :=
  let rules := catalogFor config
  let ignored := RuleOptions.warnings config
  match o.rules with
  | none => ⟨rules, ignored⟩
  | some list =>
    ⟨selectRules list rules, ignored ++ (unknownItems list rules).map ("Unknown rule: " ++ ·)⟩

/-- Analyses standard input as one unit. Only a unit that cannot be parsed is warned about. -/
def checkStdin (a : Analyzer) (content : ByteArray) : Logged Report :=
  match String.fromUTF8? content with
  | some text =>
    let report := a.analyzeUnits [⟨stdinIdentifier, text⟩]
    ⟨report, report.inputErrors.map InputError.message⟩
  | none => ⟨{ inputErrors := [⟨stdinIdentifier, "input is not valid UTF-8"⟩] }, []⟩

/-- Analyses the inputs of a check. -/
def CheckOptions.analyze (o : CheckOptions) (env : Environment) (a : Analyzer) : Logged Report :=
  if o.readsStdin then checkStdin a env.stdin else a.analyzePaths env.files.access o.inputs

/-- What a check has said before it analyses anything. -/
structure Start where
  analyzer : Analyzer
  warnings : List String
  details : List String

/-- Loads the configuration, chooses the rules and builds the analyzer. A failure comes with the
warnings given before it. -/
def CheckOptions.start (o : CheckOptions) (env : Environment) :
    Except (StartError × List String) Start :=
  let source := (o.configPlaces env).find? env.files
  match Config.load env.files source with
  | .error cause => .error (.config cause, [])
  | .ok config =>
    let rules := o.chooseRules config
    match Analyzer.build (some (Swift.parser env.grammar)) config rules.result o.excludes with
    | .error cause => .error (.analyzer cause, rules.warnings)
    | .ok a =>
      .ok {
        analyzer := a
        warnings := rules.warnings
        details := ["Configuration: " ++ source.getD "built-in defaults",
          "Running " ++ toString a.rules.length ++ " rules"] }

/-- Checks sources. -/
def CheckOptions.run (o : CheckOptions) (env : Environment) : Outcome :=
  match o.start env with
  | .error (cause, warnings) =>
    { status := inputErrorStatus
      stderr := warnings.map warningLine ++ [errorLine cause.message] }
  | .ok s =>
    let checked := o.analyze env s.analyzer
    { status := exitStatus checked.result s.analyzer.config.failThreshold
      stdout := checked.result.render o.format
      stderr := (s.warnings ++ checked.warnings).map warningLine
        ++ checked.result.inputErrors.map fun e => errorLine e.display
      details := if o.verbose then s.details else [] }

/-! ## Listing the rules -/

/-- The text, filled up with spaces to a width. -/
def padTo (width : Nat) (s : String) : String :=
  s ++ String.ofList (List.replicate (width - s.length) ' ')

def ruleRow (code name severity description : String) : String :=
  padTo 13 code ++ " " ++ padTo 34 name ++ " " ++ padTo 9 severity ++ " " ++ description

def ruleTable : List String :=
  ruleRow "Code" "Name" "Severity" "Description" :: String.ofList (List.replicate 100 '-')
    :: (catalog {}).map fun r => ruleRow r.code r.name r.severity.label r.description

def ruleListing : Outcome where
  status := cleanStatus
  stdout := unlines (["Available rules:", ""] ++ ruleTable ++ ["",
    "Reserved codes: " ++ Text.joinWith ", " reservedCodes, "",
    "Use --rules to run specific rules, e.g.:",
    "  concurrency-guard Sources --rules detached-task,task-in-initializer",
    "  concurrency-guard Sources --rules CC-CONC-001,CC-CONC-005"])

/-! ## Starting a configuration -/

def configName : String := "concurrency-guard.toml"

/-- A configuration to start from. It spells out the defaults. -/
def starterConfig : String := unlines [
  "# concurrency-guard configuration",
  "",
  "# Lowest severity that makes the run fail: \"info\", \"warning\" or \"error\"",
  "fail_on = \"info\"",
  "",
  "[analyzer]",
  "# Glob patterns excluded from directory walks",
  "exclude = [",
  "    \"**/.build/**\",",
  "    \"**/Pods/**\",",
  "    \"**/DerivedData/**\",",
  "]",
  "",
  "# Respect .gitignore files",
  "respect_gitignore = true",
  "",
  "# Extra functions treated as render/layout paths",
  "# (body, layoutSubviews and updateUIView are always included)",
  "render_entry_points = []",
  "",
  "# Rules can be keyed by name or code; each can be disabled or given a",
  "# different severity.",
  "",
  "[rules.excessive-concurrent-spawns]",
  "enabled = true",
  "max_tasks = 3",
  "",
  "[rules.async-stream-missing-termination]",
  "constructors = [\"AsyncStream\", \"AsyncThrowingStream\"]",
  "# Also accept `continuation.onTermination = ...` inside the build closure",
  "accept_continuation_handler = false",
  "",
  "# [rules.detached-task]",
  "# severity = \"error\"",
  "",
  "# [rules.unparsable-source]",
  "# enabled = false"]

/-- A failure of a subcommand. -/
def failure (message : String) : Outcome :=
  { status := 1, stderr := ["Error: " ++ message] }

/-- Writes the starting configuration. What exists under its name is kept unless `force` is set, and
a directory cannot be replaced. -/
def startConfig (files : FileSystem) (force : Bool) : Outcome :=
  if files.exists? configName ∧ ¬ force then
    failure ("Configuration file already exists at " ++ configName ++ ". Use --force to overwrite.")
  else if files.isDirectory configName then failure FileError.isADirectory.message
  else
    { status := cleanStatus
      stdout := unlines ["Created " ++ configName, "", "Next steps:",
        "  1. Edit " ++ configName ++ " to configure rules",
        "  2. Run: concurrency-guard Sources"]
      written := some (configName, starterConfig) }

/-! ## Whole runs -/

def Command.run (env : Environment) : Command → Outcome
  | .check options => options.run env
  | .listRules => ruleListing
  | .init force => startConfig env.files force

/-- The exit status of a run whose arguments are refused. -/
def usageStatus : Nat := 2

def Stop.outcome : Stop → Outcome
  | .usage cause =>
    { status := usageStatus
      stderr := [errorLine cause.message, "", "For more information, try '--help'."] }
  | .help topic => { status := cleanStatus, stdout := topic.text }
  | .version => { status := cleanStatus, stdout := versionText }

/-- Runs a command line. -/
def run (env : Environment) (arguments : List String) : Outcome :=
  match Command.parse arguments with
  | .error stop => stop.outcome
  | .ok command => command.run env

end ConcurrencyLint.Cli
