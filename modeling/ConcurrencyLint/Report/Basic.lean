/-!
# Violations and reports

What a run hands out: violations in the order in which they were found, the inputs that could not
be analysed, and the number of units that were.
-/

namespace ConcurrencyLint

/-- How serious a violation is. -/
inductive Severity where
  | info
  | warning
  | error
  deriving DecidableEq, Repr, Inhabited

namespace Severity

def label : Severity → String
  | .info => "info"
  | .warning => "warning"
  | .error => "error"

/-- The severity that a label names. -/
def ofLabel? : String → Option Severity
  | "info" => some .info
  | "warning" => some .warning
  | "error" => some .error
  | _ => none

def rank : Severity → Nat
  | .info => 0
  | .warning => 1
  | .error => 2

instance : LE Severity := ⟨fun a b => a.rank ≤ b.rank⟩

instance (a b : Severity) : Decidable (a ≤ b) := inferInstanceAs (Decidable (a.rank ≤ b.rank))

end Severity

/-- A place in a named source unit. -/
structure Location where
  file : String
  line : Nat
  column : Nat
  offset : Nat := 0
  length : Nat := 0
  deriving DecidableEq, Repr

/-- One finding of a rule. -/
structure Violation where
  code : String
  rule : String
  severity : Severity
  location : Location
  message : String
  suggestion : Option String := none
  deriving DecidableEq, Repr

namespace Violation

/-- The line of the plain report. -/
def reportLine (v : Violation) : String :=
  "VIOLATION: " ++ v.code ++ " at " ++ v.location.file ++ ":" ++ toString v.location.line ++ " - "
    ++ v.message

/-- The one-line form with column and severity. -/
def compact (v : Violation) : String :=
  v.location.file ++ ":" ++ toString v.location.line ++ ":" ++ toString v.location.column ++ ": "
    ++ v.severity.label ++ " [" ++ v.code ++ "] " ++ v.message

end Violation

/-- A violation as a diagnostic over source text: headline, help and one labelled byte range. -/
structure Diagnostic where
  headline : String
  help : Option String
  label : String
  offset : Nat
  length : Nat
  deriving DecidableEq, Repr

def Violation.diagnostic (v : Violation) : Diagnostic where
  headline := "[" ++ v.code ++ "] " ++ v.message
  help := v.suggestion
  label := v.rule
  offset := v.location.offset
  length := v.location.length

/-- An input that could not be analysed. -/
structure InputError where
  identifier : String
  message : String
  deriving DecidableEq, Repr

def InputError.display (e : InputError) : String := e.identifier ++ ": " ++ e.message

/-- The result of a run. -/
structure Report where
  /-- In input order, then in traversal order. -/
  violations : List Violation := []
  filesChecked : Nat := 0
  inputErrors : List InputError := []
  deriving DecidableEq, Repr

namespace Report

def empty : Report := {}

def isClean (r : Report) : Bool := r.violations.isEmpty

def hasInputErrors (r : Report) : Bool := !r.inputErrors.isEmpty

/-- There is nothing to report. -/
def isOk (r : Report) : Bool := r.isClean && !r.hasInputErrors

/-- Some violation is at least as serious as `threshold`. -/
def reaches (r : Report) (threshold : Severity) : Bool :=
  r.violations.any fun v => threshold ≤ v.severity

def count (r : Report) (s : Severity) : Nat := r.violations.countP fun v => v.severity == s

/-- The plain report: `OK`, or one line per violation. Input errors are reported elsewhere, so a run
with nothing but input errors has an empty report. -/
def text (r : Report) : String :=
  if r.isOk then "OK\n" else String.join (r.violations.map fun v => v.reportLine ++ "\n")

/-- Appends another report. -/
def append (r s : Report) : Report where
  violations := r.violations ++ s.violations
  filesChecked := r.filesChecked + s.filesChecked
  inputErrors := r.inputErrors ++ s.inputErrors

instance : Append Report := ⟨append⟩

end Report

end ConcurrencyLint
