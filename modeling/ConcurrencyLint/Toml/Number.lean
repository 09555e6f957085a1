import ConcurrencyLint.Text.Parser
import ConcurrencyLint.Toml.Value

/-!
# TOML numbers, dates and times
-/

namespace ConcurrencyLint.Toml

open Text (Parser isDigit isHexDigit)

/-! ## Integers -/

/-- Digits after the first one, with single underscores between digits left out. -/
def moreDigits (test : Char → Bool) : List Char → Option (List Char × List Char)
  | [] => some ([], [])
  | '_' :: rest =>
    match rest with
    | c :: rest => if test c then (moreDigits test rest).map fun (d, r) => (c :: d, r) else none
    | [] => none
  | c :: rest =>
    if test c then (moreDigits test rest).map fun (d, r) => (c :: d, r) else some ([], c :: rest)

/-- A row of digits that may start with zeros. -/
def digitRow (test : Char → Bool) : Parser (List Char) := do
  let first ← Parser.satisfy test
  let more ← moreDigits test
  return first :: more

/-- An optional sign; true for a minus. -/
def sign : Parser Bool := do
  match ← Parser.peek with
  | some '-' => Parser.char '-'; return true
  | some '+' => Parser.char '+'; return false
  | _ => return false

/-- The digits of a decimal integer: a single zero, or a row that does not start with one. -/
def decimalDigits : Parser (List Char) := do
  match ← Parser.peek with
  | some '0' => Parser.char '0'; return ['0']
  | _ => digitRow isDigit

def isOctalDigit (c : Char) : Bool := '0' ≤ c && c ≤ '7'

def isBinaryDigit (c : Char) : Bool := c == '0' || c == '1'

/-- A number within the signed 64-bit range. -/
def checkRange (n : Int) : Parser Value :=
  if -0x8000000000000000 ≤ n ∧ n < 0x8000000000000000 then pure (.integer n) else failure

/-- An integer after a mark that gives its base. -/
def basedInteger (mark : String) (base : Nat) (test : Char → Bool) : Parser Value := do
  Parser.word mark
  let digits ← digitRow test
  checkRange (Text.ofDigits base digits)

def decimalInteger : Parser Value := do
  let negative ← sign
  let n := Text.ofDigits 10 (← decimalDigits)
  checkRange (if negative then -(n : Int) else n)

def integer : Parser Value := fun cs =>
  match cs with
  | '0' :: 'x' :: _ => basedInteger "0x" 16 isHexDigit cs
  | '0' :: 'o' :: _ => basedInteger "0o" 8 isOctalDigit cs
  | '0' :: 'b' :: _ => basedInteger "0b" 2 isBinaryDigit cs
  | _ => decimalInteger cs

/-! ## Floats -/

def exponentPart : Parser Int := do
  let _ ← Parser.satisfy fun c => c == 'e' || c == 'E'
  let negative ← sign
  let n := Text.ofDigits 10 (← digitRow isDigit)
  return if negative then -(n : Int) else n

def fractionPart : Parser (List Char) := do
  Parser.char '.'
  digitRow isDigit

/-- The number nearest to a decimal. One that is too great is refused; one that is too far below
zero is negative infinity. -/
def floatOfDecimal (negative : Bool) (digits : List Char) (exponent : Int) : Parser Value :=
  let x := Binary64.ofDecimal negative (Text.ofDigits 10 digits) exponent
  if x.isInfinite ∧ !negative then failure else pure (.float x)

/-- A float: digits with a fraction, an exponent or both. -/
def finiteFloat : Parser Value := do
  let negative ← sign
  let whole ← decimalDigits
  match ← Parser.option exponentPart with
  | some exponent => floatOfDecimal negative whole exponent
  | none =>
    let fraction ← fractionPart
    let exponent ← Parser.option exponentPart
    floatOfDecimal negative (whole ++ fraction) (exponent.getD 0 - fraction.length)

def specialFloat : Parser Value := do
  let negative ← sign
  match ← Parser.peek with
  | some 'i' => Parser.word "inf"; return .float ⟨negative, Binary64.infinity⟩
  | _ => Parser.word "nan"; return .float ⟨negative, Binary64.notANumber⟩

def float : Parser Value := finiteFloat <|> specialFloat

/-! ## Dates and times -/

/-- A number of exactly `width` digits within bounds. -/
def fixed (width low high : Nat) : Parser Nat := do
  let n := Text.ofDigits 10 (← Parser.exactly isDigit width)
  if low ≤ n ∧ n ≤ high then return n else failure

def isLeapYear (year : Nat) : Bool := year % 4 == 0 && (year % 100 != 0 || year % 400 == 0)

def daysInMonth (year month : Nat) : Nat :=
  if month = 2 then (if isLeapYear year then 29 else 28)
  else if [4, 6, 9, 11].contains month then 30
  else 31

/-- A date, in its canonical spelling. -/
def date : Parser String := do
  let year ← fixed 4 0 9999
  Parser.char '-'
  let month ← fixed 2 1 12
  Parser.char '-'
  let day ← fixed 2 1 (daysInMonth year month)
  return Text.padded 4 year ++ "-" ++ Text.padded 2 month ++ "-" ++ Text.padded 2 day

/-- A fraction of a second: digits after the ninth are dropped, then zeros at the end. -/
def secondFraction : Parser String := do
  Parser.char '.'
  let first ← Parser.satisfy isDigit
  let more ← Parser.takeWhile isDigit
  let digits := (((first :: more).take 9).reverse.dropWhile (· == '0')).reverse
  return if digits.isEmpty then "" else "." ++ String.ofList digits

/-- The greatest numbers that times and offsets may hold. -/
structure ClockLimits where
  hour : Nat
  offsetHour : Nat
  offsetMinute : Nat

/-- The limits in a document. -/
def ClockLimits.document : ClockLimits := ⟨23, 23, 59⟩

/-- The limits in a string that holds a date. -/
def ClockLimits.string : ClockLimits := ⟨24, 99, 99⟩

/-- A time of day, in its canonical spelling. -/
def time (limits : ClockLimits) : Parser String := do
  let hour ← fixed 2 0 limits.hour
  Parser.char ':'
  let minute ← fixed 2 0 59
  Parser.char ':'
  let second ← fixed 2 0 60
  let fraction ← Parser.option secondFraction
  return Text.padded 2 hour ++ ":" ++ Text.padded 2 minute ++ ":" ++ Text.padded 2 second
    ++ fraction.getD ""

/-- An offset from universal time, of a day at most. A zero offset is written as positive. -/
def offset (limits : ClockLimits) : Parser String := do
  match ← Parser.satisfy fun c => c == 'Z' || c == 'z' || c == '+' || c == '-' with
  | 'Z' | 'z' => return "Z"
  | mark =>
    let hour ← fixed 2 0 limits.offsetHour
    Parser.char ':'
    let minute ← fixed 2 0 limits.offsetMinute
    let minutes := hour * 60 + minute
    if 24 * 60 < minutes then failure
    return (if mark == '-' && minutes != 0 then "-" else "+") ++ Text.padded 2 (minutes / 60) ++ ":"
      ++ Text.padded 2 (minutes % 60)

/-- The time after a date, with an optional offset. -/
def timeAfterDate (limits : ClockLimits) : Parser String := do
  let _ ← Parser.satisfy fun c => c == 'T' || c == 't' || c == ' '
  let t ← time limits
  let o ← Parser.option (offset limits)
  return "T" ++ t ++ o.getD ""

/-- A date, a time, or both, in its canonical spelling. -/
def datetime (limits : ClockLimits) : Parser String :=
  (do
    let d ← date
    let t ← Parser.option (timeAfterDate limits)
    return d ++ t.getD "")
  <|> time limits

/-- The canonical spelling of a date that makes up a whole string. -/
def datetimeOfString? (s : String) : Option String :=
  let whole : Parser String := do
    let d ← datetime .string
    Parser.atEnd
    return d
  (whole s.toList).map Prod.fst

/-- Anything that starts with a digit or a sign. -/
def number : Parser Value := (return .datetime (← datetime .document)) <|> float <|> integer

/-! ## Tables that stand for dates -/

namespace Value

/-- The date that the only entry of a table holds, if it holds one. -/
def datetimeOfEntry? (v : Value) (others : List (String × Value)) : Option Value :=
  if others.isEmpty then (v.asString?.bind datetimeOfString?).map .datetime else none

mutual

/-- Puts dates in place of the tables that stand for them. A table that starts like one and does not
hold a date is refused. -/
def resolveDates : Value → Option Value
  | .array items => (resolveAll items).map .array
  | .table [] => some (.table [])
  | .table ((key, v) :: others) =>
    if key = datetimeKey then datetimeOfEntry? v others
    else do
      let first ← resolveDates v
      return .table ((key, first) :: (← resolveEntries others))
  | v => some v

def resolveAll : List Value → Option (List Value)
  | [] => some []
  | v :: vs => do return (← resolveDates v) :: (← resolveAll vs)

def resolveEntries : List (String × Value) → Option (List (String × Value))
  | [] => some []
  | (key, v) :: rest => do return (key, ← resolveDates v) :: (← resolveEntries rest)

end

end Value

end ConcurrencyLint.Toml
