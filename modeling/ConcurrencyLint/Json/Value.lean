import ConcurrencyLint.Text.Digits

/-!
# JSON values and their written form

The printer puts every item on a line of its own, two spaces further in than what holds it.
-/

namespace ConcurrencyLint

/-- A JSON value. Numbers are kept as written. A string whose escapes name half a character has no
text. -/
inductive JsonValue where
  | null
  | bool (b : Bool)
  | number (digits : List Char)
  | string (text : Option String)
  | array (items : List JsonValue)
  | object (members : List (Option String × JsonValue))
  deriving Inhabited

namespace JsonValue

def ofString (s : String) : JsonValue := .string (some s)

def ofNat (n : Nat) : JsonValue := .number (toString n).toList

/-- An object with the given members. -/
def ofMembers (members : List (String × JsonValue)) : JsonValue :=
  .object (members.map fun (name, v) => (some name, v))

/-! ## Printing -/

/-- A character inside quotes. Quotes, backslashes and control characters are escaped. -/
def escapeChar (c : Char) : List Char :=
  match c with
  | '"' => ['\\', '"']
  | '\\' => ['\\', '\\']
  | '\x08' => ['\\', 'b']
  | '\x0c' => ['\\', 'f']
  | '\n' => ['\\', 'n']
  | '\r' => ['\\', 'r']
  | '\t' => ['\\', 't']
  | c =>
    if c.toNat < 0x20 then '\\' :: 'u' :: (Text.hex4 Text.lowerHexDigits c.toNat).toList else [c]

/-- A string in quotes. -/
def quote (s : String) : List Char := '"' :: (s.toList.flatMap escapeChar ++ ['"'])

/-- A string that has no text is written as an empty one. -/
def quote? (s : Option String) : List Char := quote (s.getD "")

/-- A line break and the indentation of a level. -/
def lineBreak (level : Nat) : List Char := '\n' :: List.replicate (2 * level) ' '

mutual

/-- A value, starting at a level of indentation. -/
def print (level : Nat) : JsonValue → List Char
  | .null => "null".toList
  | .bool true => "true".toList
  | .bool false => "false".toList
  | .number digits => digits
  | .string s => quote? s
  | .array [] => ['[', ']']
  | .array (v :: vs) =>
    '[' :: (lineBreak (level + 1) ++ v.print (level + 1) ++ printItems (level + 1) vs
      ++ lineBreak level ++ [']'])
  | .object [] => ['\x7b', '\x7d']
  | .object ((key, v) :: members) =>
    '\x7b' :: (lineBreak (level + 1) ++ quote? key ++ [':', ' '] ++ v.print (level + 1)
      ++ printMembers (level + 1) members ++ lineBreak level ++ ['\x7d'])

/-- Further items of an array, each after a comma. -/
def printItems (level : Nat) : List JsonValue → List Char
  | [] => []
  | v :: vs => ',' :: (lineBreak level ++ v.print level ++ printItems level vs)

/-- Further members of an object, each after a comma. -/
def printMembers (level : Nat) : List (Option String × JsonValue) → List Char
  | [] => []
  | (key, v) :: members =>
    ',' :: (lineBreak level ++ quote? key ++ [':', ' '] ++ v.print level
      ++ printMembers level members)

end

/-- The written form of a value. -/
def pretty (v : JsonValue) : String := String.ofList (v.print 0)

end JsonValue

end ConcurrencyLint
