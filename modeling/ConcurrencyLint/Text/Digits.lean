/-!
# Digits

Reading and writing numbers in a base.
-/

namespace ConcurrencyLint.Text

/-- The value of a digit in any base up to sixteen. -/
def digitValue (c : Char) : Nat :=
  if '0' ≤ c ∧ c ≤ '9' then c.toNat - '0'.toNat
  else if 'a' ≤ c ∧ c ≤ 'f' then c.toNat - 'a'.toNat + 10
  else if 'A' ≤ c ∧ c ≤ 'F' then c.toNat - 'A'.toNat + 10
  else 0

def isDigit (c : Char) : Bool := '0' ≤ c && c ≤ '9'

def isHexDigit (c : Char) : Bool :=
  isDigit c || ('a' ≤ c && c ≤ 'f') || ('A' ≤ c && c ≤ 'F')

/-- The number that a row of digits stands for. -/
def ofDigits (base : Nat) (digits : List Char) : Nat :=
  digits.foldl (fun n c => n * base + digitValue c) 0

/-- The decimal digits of a number, filled up with zeros on the left. -/
def padded (width n : Nat) : String :=
  let digits := toString n
  String.ofList (List.replicate (width - digits.length) '0') ++ digits

/-- The hexadecimal digits of a number at some places. -/
def hexAt (digits : List Char) (places : List Nat) (n : Nat) : String :=
  String.ofList (places.map fun place => digits.getD (n / place % 16) '0')

/-- The two hexadecimal digits of a number below 256. -/
def hex2 (digits : List Char) (n : Nat) : String := hexAt digits [16, 1] n

/-- The four hexadecimal digits of a number below 65536. -/
def hex4 (digits : List Char) (n : Nat) : String := hexAt digits [4096, 256, 16, 1] n

def lowerHexDigits : List Char := "0123456789abcdef".toList

def upperHexDigits : List Char := "0123456789ABCDEF".toList

end ConcurrencyLint.Text
