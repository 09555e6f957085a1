import ConcurrencyLint.Binary64
import ConcurrencyLint.Text.Digits
import ConcurrencyLint.Text.Split

/-!
# TOML values

The values of a TOML document and the way a value is written on one line of a message.
-/

namespace ConcurrencyLint.Toml

/-- A TOML value. Dates and times are kept in their canonical spelling. -/
inductive Value where
  | string (s : String)
  | integer (n : Int)
  | float (x : Binary64)
  | boolean (b : Bool)
  | datetime (text : String)
  | array (items : List Value)
  | table (entries : List (String × Value))
  deriving Inhabited

namespace Value

/-! ## Views -/

def asInteger? : Value → Option Int
  | .integer n => some n
  | _ => none

def asBoolean? : Value → Option Bool
  | .boolean b => some b
  | _ => none

def asString? : Value → Option String
  | .string s => some s
  | _ => none

def asArray? : Value → Option (List Value)
  | .array items => some items
  | _ => none

/-! ## Writing -/

/-- A control character that no quoting style can hold as it is. -/
def needsCode (c : Char) : Bool :=
  (c.toNat ≤ 0x1F && c != '\t' && c != '\n') || c.toNat == 0x7F

/-- The length of the longest run of a character. -/
def longestRun (c : Char) (cs : List Char) : Nat :=
  let extend (runs : Nat × Nat) (d : Char) : Nat × Nat :=
    if d = c then (max runs.1 (runs.2 + 1), runs.2 + 1) else (runs.1, 0)
  (cs.foldl extend (0, 0)).1

/-- A character of a string between double quotes. Line feeds stay where the string may span lines,
and there up to two double quotes in a row stay as well; `run` counts the quotes just before. -/
def escapeChar (spansLines : Bool) (run : Nat) (c : Char) : String :=
  match c with
  | '\x08' => "\\b"
  | '\t' => "\\t"
  | '\n' => if spansLines then "\n" else "\\n"
  | '\x0c' => "\\f"
  | '\r' => "\\r"
  | '\\' => "\\\\"
  | '"' => if run < (if spansLines then 2 else 0) then "\"" else "\\\""
  | c => if needsCode c then "\\u" ++ Text.hex4 Text.upperHexDigits c.toNat else c.toString

/-- The text between double quotes. An escaped quote starts the count of quotes again. -/
def escaped (spansLines : Bool) (cs : List Char) : String :=
  let extend (done : String × Nat) (c : Char) : String × Nat :=
    let written := escapeChar spansLines done.2 c
    (done.1 ++ written, if written = "\"" then done.2 + 1 else 0)
  (cs.foldl extend ("", 0)).1

/-- A quoted string: between double quotes if nothing in it needs an escape, else as it is between
single quotes if that is possible, then in the forms that span lines, at last with escapes. -/
def quoted (s : String) : String :=
  let cs := s.toList
  let codes := cs.any needsCode
  let backslash := cs.contains '\\'
  let newline := cs.contains '\n'
  let doubles := longestRun '"' cs
  let singles := longestRun '\'' cs
  let start := if newline then "\n" else ""
  if !codes && !backslash && doubles == 0 && !newline then "\"" ++ escaped false cs ++ "\""
  else if !codes && singles == 0 && !newline then "'" ++ s ++ "'"
  else if !codes && !backslash && doubles ≤ 2 then
    "\"\"\"" ++ start ++ escaped true cs ++ "\"\"\""
  else if !codes && singles ≤ 2 then "'''" ++ start ++ s ++ "'''"
  else if newline then "\"\"\"" ++ start ++ escaped true cs ++ "\"\"\""
  else "\"" ++ escaped false cs ++ "\""

def isBareKeyChar (c : Char) : Bool := c.isAlphanum || c == '_' || c == '-'

/-- A key: bare if it can be, else quoted. -/
def quotedKey (key : String) : String :=
  let cs := key.toList
  let codes := cs.any fun c => needsCode c || c == '\n'
  if !cs.isEmpty && cs.all isBareKeyChar then key
  else if !codes && !cs.contains '\\' && !cs.contains '"' then "\"" ++ escaped false cs ++ "\""
  else if !codes && !cs.contains '\'' then "'" ++ key ++ "'"
  else "\"" ++ escaped false cs ++ "\""

/-- A number with a point, also where its value is whole. What is not a number has no sign. -/
def floatText (x : Binary64) : String :=
  let sign := if x.negative then "-" else ""
  if x.isNaN then "nan"
  else if x.isInfinite then sign ++ "inf"
  else if x.magnitude = 0 then sign ++ "0.0"
  else
    let (units, unit) := Binary64.shortest x.magnitude
    sign ++ Binary64.positional units unit ++ if 0 ≤ unit then ".0" else ""

/-- A table on one line, from its keys and the texts of their values, in the order of the keys. -/
def inlineEntries (entries : List (String × String)) : String :=
  let sorted := entries.mergeSort fun a b => a.1 ≤ b.1
  if sorted.isEmpty then "\x7b\x7d"
  else
    let written := sorted.map fun e => quotedKey e.1 ++ " = " ++ e.2
    "\x7b " ++ Text.joinWith ", " written ++ " \x7d"

mutual

/-- A value on one line, as it stands inside another one. -/
def text : Value → String
  | .string s => quoted s
  | .integer n => toString n
  | .float x => floatText x
  | .boolean b => if b then "true" else "false"
  | .datetime t => t
  | .array items => "[" ++ Text.joinWith ", " (textAll items) ++ "]"
  | .table entries => inlineEntries (textEntries entries)

def textAll : List Value → List String
  | [] => []
  | v :: vs => v.text :: textAll vs

def textEntries : List (String × Value) → List (String × String)
  | [] => []
  | (key, v) :: rest => (key, v.text) :: textEntries rest

end

/-- The key of a table that stands for a date: its only entry holds the date as a string. -/
def datetimeKey : String := "$__toml_private_datetime"

/-- A value on one line by itself. A date is then written as the table that stands for it. -/
def display : Value → String
  | .datetime t => inlineEntries [(datetimeKey, quoted t)]
  | v => v.text

end Value

end ConcurrencyLint.Toml
