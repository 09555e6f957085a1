import ConcurrencyLint.Report.Json

/-!
# Output formats

A report as plain lines, as compact lines, as JSON, or as diagnostics with a summary.
-/

namespace ConcurrencyLint

inductive OutputFormat where
  | text
  | compact
  | json
  | rich
  deriving DecidableEq, Repr

namespace OutputFormat

def label : OutputFormat → String
  | .text => "text"
  | .compact => "compact"
  | .json => "json"
  | .rich => "rich"

/-- The format that a label names. -/
def ofLabel? : String → Option OutputFormat
  | "text" => some .text
  | "compact" => some .compact
  | "json" => some .json
  | "rich" => some .rich
  | _ => none

end OutputFormat

/-- A violation as a diagnostic: its headline, where it is, and the help. -/
def Violation.richText (v : Violation) : String :=
  let d := v.diagnostic
  let place := v.location.file ++ ":" ++ toString v.location.line ++ ":"
    ++ toString v.location.column
  let help := match d.help with
    | some help => "  help: " ++ help ++ "\n"
    | none => ""
  d.headline ++ "\n  at " ++ place ++ " (" ++ d.label ++ ")\n" ++ help

namespace Report

/-- The line that closes a report of diagnostics. -/
def summary (r : Report) : String :=
  "Found " ++ toString (r.count .error) ++ " error(s), " ++ toString (r.count .warning)
    ++ " warning(s), " ++ toString (r.count .info) ++ " info(s) in " ++ toString r.filesChecked
    ++ " file(s)"

/-- The report in a format. -/
def render (r : Report) : OutputFormat → String
  | .text => r.text
  | .compact => String.join (r.violations.map fun v => v.compact ++ "\n")
  | .json => r.prettyJson ++ "\n"
  | .rich =>
    if r.isOk then "OK\n"
    else String.join (r.violations.map Violation.richText) ++ r.summary ++ "\n"

end Report

end ConcurrencyLint
