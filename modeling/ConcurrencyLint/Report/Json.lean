import ConcurrencyLint.Json.Decoding
import ConcurrencyLint.Report.Basic

/-!
# Reports as JSON

The JSON form of a report. An absent suggestion and an empty list of input errors are left out.
Reading is more liberal than writing: a record may also be an array of its fields in order, and
members that it does not know are passed over.
-/

namespace ConcurrencyLint

/-! ## Writing -/

def Severity.toJson (s : Severity) : JsonValue := .ofString s.label

def Location.toJson (l : Location) : JsonValue :=
  .ofMembers [("file", .ofString l.file), ("line", .ofNat l.line), ("column", .ofNat l.column),
    ("offset", .ofNat l.offset), ("length", .ofNat l.length)]

/-- The JSON form of a suggestion. -/
def suggestionToJson (s : String) : JsonValue := .ofMembers [("message", .ofString s)]

def Violation.toJson (v : Violation) : JsonValue :=
  .ofMembers ([("code", .ofString v.code), ("rule", .ofString v.rule),
    ("severity", v.severity.toJson), ("location", v.location.toJson),
    ("message", .ofString v.message)]
    ++ (v.suggestion.map fun s => ("suggestion", suggestionToJson s)).toList)

def InputError.toJson (e : InputError) : JsonValue :=
  .ofMembers [("identifier", .ofString e.identifier), ("message", .ofString e.message)]

def Report.toJson (r : Report) : JsonValue :=
  .ofMembers ([("violations", .array (r.violations.map Violation.toJson)),
    ("files_checked", .ofNat r.filesChecked)]
    ++ if r.inputErrors.isEmpty then []
      else [("input_errors", .array (r.inputErrors.map InputError.toJson))])

/-! ## Reading -/

open JsonValue (asString? asCount? asArray? fields)

/-- A severity: its label, or an object with the label as its only key and null under it. -/
def Severity.ofJson? : JsonValue → Option Severity
  | .string s => s.bind Severity.ofLabel?
  | .object [(s, .null)] => s.bind Severity.ofLabel?
  | _ => none

def Location.ofJson? (v : JsonValue) : Option Location := do
  match ← fields ["file", "line", "column", "offset", "length"] v with
  | [file, line, column, offset, length] =>
    return {
      file := ← file.bind asString?
      line := ← line.bind asCount?
      column := ← column.bind asCount?
      offset := ← offset.bind asCount?
      length := ← length.bind asCount? }
  | _ => none

def suggestionOfJson? (v : JsonValue) : Option String := do
  match ← fields ["message"] v with
  | [message] => message.bind asString?
  | _ => none

/-- A suggestion that may be absent or null. -/
def optionalSuggestion : Option JsonValue → Option (Option String)
  | none => some none
  | some .null => some none
  | some v => (suggestionOfJson? v).map some

def Violation.ofJson? (v : JsonValue) : Option Violation := do
  match ← fields ["code", "rule", "severity", "location", "message", "suggestion"] v with
  | [code, rule, severity, location, message, suggestion] =>
    return {
      code := ← code.bind asString?
      rule := ← rule.bind asString?
      severity := ← severity.bind Severity.ofJson?
      location := ← location.bind Location.ofJson?
      message := ← message.bind asString?
      suggestion := ← optionalSuggestion suggestion }
  | _ => none

def InputError.ofJson? (v : JsonValue) : Option InputError := do
  match ← fields ["identifier", "message"] v with
  | [identifier, message] =>
    return { identifier := ← identifier.bind asString?, message := ← message.bind asString? }
  | _ => none

/-- Input errors that may be absent. -/
def optionalErrors : Option JsonValue → Option (List InputError)
  | none => some []
  | some v => asArray? InputError.ofJson? v

def Report.ofJson? (v : JsonValue) : Option Report := do
  match ← fields ["violations", "files_checked", "input_errors"] v with
  | [violations, filesChecked, inputErrors] =>
    return {
      violations := ← violations.bind (asArray? Violation.ofJson?)
      filesChecked := ← filesChecked.bind asCount?
      inputErrors := ← optionalErrors inputErrors }
  | _ => none

/-- Reads a report from text. -/
def Report.parse (text : String) : Option Report := (JsonValue.parse text).bind Report.ofJson?

/-- Writes a report as text. -/
def Report.prettyJson (r : Report) : String := r.toJson.pretty

end ConcurrencyLint
