import ConcurrencyLint.Report.Basic
import ConcurrencyLint.Scope.Basic
import ConcurrencyLint.Toml.Document

/-!
# Configuration

The settings of a run, read from a TOML document. Rules are configured in blocks keyed by name or
code; what a block says beyond `enabled` and `severity` is left to the rule.
-/

namespace ConcurrencyLint

open Toml (Value)

/-- The settings of the analyzer itself. -/
structure AnalyzerConfig where
  /-- Patterns of files that directory walks leave out. -/
  exclude : List String := []
  respectGitignore : Bool := true
  /-- Rendering entry points besides the built-in ones. -/
  renderEntryPoints : List String := []
  /-- The most units analysed at a time. -/
  parallelism : Option Nat := none
  deriving DecidableEq, Repr

/-- The settings when a document does not mention the analyzer. One that does mention it starts from
no excludes at all. -/
def AnalyzerConfig.unmentioned : AnalyzerConfig := { exclude := ["**/.build/**", "**/Pods/**"] }

/-- One rule block. -/
structure RuleConfig where
  enabled : Option Bool := none
  severity : Option Severity := none
  options : List (String × Value) := []

namespace RuleConfig

def option? (c : RuleConfig) (key : String) : Option Value := c.options.lookup key

/-- An integer option; the default if it is absent or of another type. -/
def int (c : RuleConfig) (key : String) (default : Int) : Int :=
  ((c.option? key).bind Value.asInteger?).getD default

/-- A boolean option; the default if it is absent or of another type. -/
def bool (c : RuleConfig) (key : String) (default : Bool) : Bool :=
  ((c.option? key).bind Value.asBoolean?).getD default

/-- The strings of an array option; none if it is absent or of another type. -/
def strings (c : RuleConfig) (key : String) : List String :=
  (((c.option? key).bind Value.asArray?).getD []).filterMap Value.asString?

end RuleConfig

/-- The configuration of a run. -/
structure Config where
  /-- The least severity that fails a run. -/
  failOn : Option Severity := none
  analyzer : AnalyzerConfig := .unmentioned
  rules : List (String × RuleConfig) := []

namespace Config

/-! ## Queries -/

/-- The block under a name or code. -/
def rule? (c : Config) (key : String) : Option RuleConfig := c.rules.lookup key

/-- The block under the key does not disable the rule. -/
def isEnabled (c : Config) (key : String) : Bool := ((c.rule? key).bind (·.enabled)).getD true

/-- The severity that the block under the key sets. -/
def severity? (c : Config) (key : String) : Option Severity := (c.rule? key).bind (·.severity)

/-- The least severity that fails a run; any violation does if none is set. -/
def failThreshold (c : Config) : Severity := c.failOn.getD .info

def entryPoints (c : Config) : EntryPoints := .withExtra c.analyzer.renderEntryPoints

/-! ## Reading -/

/-- The entries of a table. A date counts as a table with one entry. -/
def entriesOf : Value → Option (List (String × Value))
  | .table entries => some entries
  | .datetime text => some [(Value.datetimeKey, .string text)]
  | _ => none

/-- An empty table or array, which may stand after the name of a severity. -/
def isEmptyValue : Value → Bool
  | .table [] => true
  | .array [] => true
  | _ => false

/-- A severity: its label, or a table with the label as its only key and nothing under it. -/
def readSeverity : Value → Option Severity
  | .string s => Severity.ofLabel? s
  | .table [(s, v)] => if isEmptyValue v then Severity.ofLabel? s else none
  | _ => none

def readStrings (v : Value) : Option (List String) := v.asArray?.bind (·.mapM Value.asString?)

/-- A number that is not negative. -/
def readCount (v : Value) : Option Nat :=
  v.asInteger?.bind fun n => if 0 ≤ n then some n.toNat else none

/-- Reads a setting, or gives the default if it is absent. One of the wrong type is refused. -/
def readOr {α : Type} (default : α) (read : Value → Option α) : Option Value → Option α
  | none => some default
  | some v => read v

/-- The analyzer settings from the four settings in order, each of which may be absent. -/
def readAnalyzerFields (exclude gitignore points parallelism : Option Value) :
    Option AnalyzerConfig := do
  return {
    exclude := ← readOr [] readStrings exclude
    respectGitignore := ← readOr true Value.asBoolean? gitignore
    renderEntryPoints := ← readOr [] readStrings points
    parallelism := ← readOr none (fun v => (readCount v).map some) parallelism }

/-- The analyzer settings: a table, or an array of the settings in order. -/
def readAnalyzer (v : Value) : Option AnalyzerConfig :=
  match v with
  | .array items => readAnalyzerFields items[0]? items[1]? items[2]? items[3]?
  | _ => do
    let entries ← entriesOf v
    readAnalyzerFields (entries.lookup "exclude") (entries.lookup "respect_gitignore")
      (entries.lookup "render_entry_points") (entries.lookup "parallelism")

/-- A rule block; every key that is not a common setting is an option. Tables that stand for dates
count as dates in the values of options only. -/
def readRule (v : Value) : Option RuleConfig := do
  let entries ← entriesOf v
  return {
    enabled := ← readOr none (fun v => v.asBoolean?.map some) (entries.lookup "enabled")
    severity := ← readOr none (fun v => (readSeverity v).map some) (entries.lookup "severity")
    options := ← Value.resolveEntries
      (entries.filter fun e => e.1 != "enabled" && e.1 != "severity") }

def readRules (v : Value) : Option (List (String × RuleConfig)) := do
  (← entriesOf v).mapM fun (key, block) => return (key, ← readRule block)

/-- A configuration from the entries of a document. Keys that it does not know are passed over. -/
def ofEntries (entries : List (String × Value)) : Option Config := do
  return {
    failOn := ← readOr none (fun v => (readSeverity v).map some) (entries.lookup "fail_on")
    analyzer := ← readOr .unmentioned readAnalyzer (entries.lookup "analyzer")
    rules := ← readOr [] readRules (entries.lookup "rules") }

/-- Reads a configuration. -/
def parse (text : String) : Option Config := (Toml.parse text).bind ofEntries

end Config

end ConcurrencyLint
