import ConcurrencyLint.Json.Reader

/-!
# Taking JSON values apart
-/

namespace ConcurrencyLint.JsonValue

/-- The greatest number that a count may be: 64 bits, all set. -/
def maxCount : Nat := 0xFFFFFFFFFFFFFFFF

def asString? : JsonValue → Option String
  | .string s => s
  | _ => none

/-- A count: a number written with digits only that is not too great. -/
def asCount? : JsonValue → Option Nat
  | .number digits =>
    let n := Text.ofDigits 10 digits
    if digits.all Text.isDigit ∧ n ≤ maxCount then some n else none
  | _ => none

/-- An array whose items can all be read. -/
def asArray? {α : Type} (read : JsonValue → Option α) : JsonValue → Option (List α)
  | .array items => items.mapM read
  | _ => none

/-- The values of a record's fields, in the order of their names. In an object every key has a text
and no field stands twice; an array has no items left over. -/
def fields (names : List String) : JsonValue → Option (List (Option JsonValue))
  | .object members =>
    let given := members.map Prod.fst
    if given.all Option.isSome ∧ names.all (fun n => given.count (some n) ≤ 1) then
      some (names.map fun n => members.lookup (some n))
    else none
  | .array items =>
    if items.length ≤ names.length then
      some ((items.map some) ++ List.replicate (names.length - items.length) none)
    else none
  | _ => none

end ConcurrencyLint.JsonValue
