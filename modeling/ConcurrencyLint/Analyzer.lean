import ConcurrencyLint.Allowance
import ConcurrencyLint.Discovery
import ConcurrencyLint.Rule.Catalog
import ConcurrencyLint.Walk

/-!
# Analysing units and paths

An analyzer parses each unit, walks its tree with the enabled rules, drops the violations that an
allowance comment covers and applies the configured severities. Inputs that fail are reported beside
the violations and never stop the others.
-/

namespace ConcurrencyLint

/-- Why a parser has no tree for a text. -/
inductive ParseError where
  /-- The grammar could not be loaded. -/
  | grammar (language message : String)
  | noTree
  deriving DecidableEq, Repr

def ParseError.message : ParseError → String
  | .grammar language message => "failed to load " ++ language ++ " grammar: " ++ message
  | .noTree => "parser produced no tree"

/-- Turns source text into syntax trees. Recoverable errors are recorded in the tree. -/
structure SourceParser where
  language : String
  /-- The file extensions of the language, without the dot. -/
  extensions : List String
  parse : String → Except ParseError Node

/-- What can go wrong with an analysis or with one of its inputs. -/
inductive AnalysisError where
  | unreadable (path : String) (cause : FileError)
  | notText (path : String)
  | unparsable (identifier : String) (cause : ParseError)
  | badPattern (cause : PatternError)
  | walkFailed (cause : FileError)
  | missingParser
  deriving DecidableEq, Repr

def AnalysisError.message : AnalysisError → String
  | .unreadable path cause => "Failed to read " ++ path ++ ": " ++ cause.message
  | .notText path => path ++ " is not valid UTF-8"
  | .unparsable identifier cause => "Parse error in " ++ identifier ++ ": " ++ cause.message
  | .badPattern cause => "Invalid glob pattern: " ++ cause.message
  | .walkFailed cause => "Failed to walk directory: " ++ cause.message
  | .missingParser => "No source parser configured"

/-- What an analysis asks of a file system. -/
structure FileAccess where
  isDirectory : String → Bool
  read : String → Except FileError ByteArray
  /-- What a walk of a directory lists, with `.gitignore` files respected or not. -/
  walk : Bool → String → Except FileError (List WalkEntry)

def FileSystem.access (fs : FileSystem) : FileAccess where
  isDirectory := fs.isDirectory
  read := fs.read
  walk := fs.walk

/-- A parser, the rules to run, and the settings in force. -/
structure Analyzer where
  parser : SourceParser
  rules : List Rule
  excludes : List Glob.Pattern
  points : EntryPoints
  config : Config

/-- A result with the warnings given on the way. -/
structure Logged (α : Type) where
  result : α
  warnings : List String

namespace Analyzer

/-! ## Building -/

/-- No block under the rule's name or code disables it. -/
def isRuleEnabled (c : Config) (r : Rule) : Bool := c.isEnabled r.name && c.isEnabled r.code

/-- Compiles patterns in order; the first bad one is the error. -/
def compilePatterns (patterns : List String) : Except PatternError (List Glob.Pattern) :=
  patterns.mapM Glob.Pattern.compile

/-- An analyzer over the rules that the configuration leaves enabled. The given excludes come before
those of the configuration. -/
def build (parser : Option SourceParser) (config : Config) (rules : List Rule)
    (excludes : List String) : Except AnalysisError Analyzer := do
  let some parser := parser | throw .missingParser
  match compilePatterns (excludes ++ config.analyzer.exclude) with
  | .error cause => throw (.badPattern cause)
  | .ok patterns =>
    return {
      parser := parser
      rules := rules.filter (isRuleEnabled config)
      excludes := patterns
      points := config.entryPoints
      config := config }

/-! ## Units -/

/-- An allowance comment covers the violation. -/
def isAllowed (u : SourceUnit) (v : Violation) : Bool :=
  (Allowance.check u.text v.location.line [v.rule, v.code]).isAllowed

/-- The severity that the configuration gives a violation: that of the rule's name block, else that
of its code block, else its own. -/
def severityOf (c : Config) (v : Violation) : Severity :=
  ((c.severity? v.rule).or (c.severity? v.code)).getD v.severity

/-- The violation with its configured severity. -/
def withSeverity (c : Config) (v : Violation) : Violation := { v with severity := severityOf c v }

/-- The violations of a tree, in traversal order. -/
def analyzeTree (a : Analyzer) (u : SourceUnit) (root : Node) : List Violation :=
  ((walkRules a.rules ⟨u, a.points⟩ root).filter fun v => !isAllowed u v).map
    (withSeverity a.config)

/-- The violations of a unit, in traversal order. -/
def analyzeUnit (a : Analyzer) (u : SourceUnit) : Except AnalysisError (List Violation) :=
  match a.parser.parse u.text with
  | .error cause => .error (.unparsable u.identifier cause)
  | .ok root => .ok (a.analyzeTree u root)

/-- The report of one input that failed. -/
def failure (identifier : String) (e : AnalysisError) : Report :=
  { inputErrors := [⟨identifier, e.message⟩] }

/-- The report of one unit. -/
def reportUnit (a : Analyzer) (u : SourceUnit) : Report :=
  match a.analyzeUnit u with
  | .ok violations => { violations := violations, filesChecked := 1 }
  | .error e => failure u.identifier e

/-- The report of several units, in their order. -/
def analyzeUnits (a : Analyzer) (units : List SourceUnit) : Report :=
  units.foldl (fun report u => report ++ a.reportUnit u) .empty

/-! ## Paths -/

/-- The files that an input stands for: the sources below a directory, or the input itself. -/
def filesOf (a : Analyzer) (files : FileAccess) (path : String) :
    Except AnalysisError (List String) :=
  if files.isDirectory path then
    match files.walk a.config.analyzer.respectGitignore path with
    | .error cause => .error (.walkFailed cause)
    | .ok entries =>
      .ok ((selectSources a.parser.extensions a.excludes entries).map (pathBelow path))
  else .ok [path]

/-- Reads a file as a unit. -/
def readUnit (files : FileAccess) (path : String) : Except AnalysisError SourceUnit :=
  match files.read path with
  | .error cause => .error (.unreadable path cause)
  | .ok content =>
    match String.fromUTF8? content with
    | some text => .ok ⟨path, text⟩
    | none => .error (.notText path)

/-- The results of a list of attempts: the failures with what failed, and the successes. -/
def partition {α β : Type} (attempt : α → Except AnalysisError β) (inputs : List α) :
    List (α × AnalysisError) × List β :=
  (inputs.filterMap fun a => match attempt a with
      | .error e => some (a, e)
      | .ok _ => none,
    inputs.filterMap fun a => match attempt a with
      | .error _ => none
      | .ok b => some b)

/-- The input errors of failed paths. -/
def errorsOf (failed : List (String × AnalysisError)) : List InputError :=
  failed.map fun (path, e) => ⟨path, e.message⟩

/-- Analyses files and directories. Errors of directory walks come first, then those of files that
cannot be read, then those of units that cannot be parsed; the last two kinds are also warned
about. -/
def analyzePaths (a : Analyzer) (files : FileAccess) (paths : List String) : Logged Report :=
  let (unwalked, found) := partition (a.filesOf files) paths
  let (unread, units) := partition (readUnit files) found.flatten
  let analyzed := a.analyzeUnits units
  { result := { inputErrors := errorsOf unwalked ++ errorsOf unread } ++ analyzed
    warnings := (errorsOf unread ++ analyzed.inputErrors).map InputError.message }

/-! ## Ready-made analyzers -/

/-- The analyzer with the whole catalogue under a configuration. -/
def standard (parser : SourceParser) (config : Config) : Except AnalysisError Analyzer :=
  build (some parser) config (catalogFor config) []

end Analyzer

end ConcurrencyLint
