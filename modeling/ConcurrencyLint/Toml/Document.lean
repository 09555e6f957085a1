import ConcurrencyLint.Toml.Number
import ConcurrencyLint.Toml.Quoted

/-!
# TOML documents

A document is read in two steps: its statements, then the table that they build. Tables may be
opened once; dotted keys may only reach into tables that dotted keys of the same section opened.
-/

namespace ConcurrencyLint.Toml

open Text (Parser)

/-- Arrays, inline tables and dotted keys go this deep at most. -/
def maxDepth : Nat := 79

/-! ## Tables under construction -/

mutual

/-- What a key of a table under construction holds. -/
inductive Item where
  | value (v : Value)
  | table (t : Table)
  /-- An array of tables, the latest first. -/
  | tables (latest : Table) (before : List Table)

/-- A table under construction. -/
inductive Table where
  /-- `implied` tables were opened by the path of another one, `dotted` ones by a dotted key. -/
  | mk (implied dotted : Bool) (entries : List (String × Item))

end

namespace Table

def implied : Table → Bool
  | ⟨implied, _, _⟩ => implied

def dotted : Table → Bool
  | ⟨_, dotted, _⟩ => dotted

def entries : Table → List (String × Item)
  | ⟨_, _, entries⟩ => entries

/-- A table that a header opens. -/
def explicit (entries : List (String × Item)) : Table := ⟨false, false, entries⟩

def find? (t : Table) (key : String) : Option Item := t.entries.lookup key

/-- Sets a key, in place if it is there. -/
def set (t : Table) (key : String) (item : Item) : Table :=
  let entries :=
    if t.entries.any (·.1 == key) then
      t.entries.map fun e => if e.1 == key then (key, item) else e
    else t.entries ++ [(key, item)]
  ⟨t.implied, t.dotted, entries⟩

def erase (t : Table) (key : String) : Table :=
  ⟨t.implied, t.dotted, t.entries.filter fun e => e.1 != key⟩

/-- Changes the table that a path leads to, opening tables on the way. The path of a dotted key
stays within implied tables. -/
def modifyAt (viaDots : Bool) (change : Table → Option Table) : List String → Table → Option Table
  | [], t => change t
  | key :: path, t =>
    match t.find? key with
    | none => do
      let child ← modifyAt viaDots change path ⟨true, viaDots, []⟩
      return t.set key (.table child)
    | some (.value _) => none
    | some (.tables latest before) => do
      let child ← modifyAt viaDots change path latest
      return t.set key (.tables child before)
    | some (.table child) =>
      if viaDots && !child.implied then none
      else do
        let child ← modifyAt viaDots change path child
        return t.set key (.table child)

/-- Adds a value under a new key. A dotted key adds to tables opened by dotted keys only. -/
def addValue (t : Table) (path : List String) (key : String) (v : Value) : Option Table :=
  let add (inner : Table) : Option Table :=
    if inner.dotted = path.isEmpty then none
    else match inner.find? key with
      | some _ => none
      | none => some (inner.set key (.value v))
  t.modifyAt true add path

/-- Adds values under their keys, one after the other. -/
def addAll (t : Table) (pairs : List (List String × Value)) : Option Table :=
  pairs.foldlM (fun t (path, v) => (path.getLast?).bind fun key => t.addValue path.dropLast key v) t

mutual

/-- The finished table. -/
def toValue : Table → Value
  | ⟨_, _, entries⟩ => .table (entriesToValue entries)

def entriesToValue : List (String × Item) → List (String × Value)
  | [] => []
  | (key, item) :: rest => (key, itemToValue item) :: entriesToValue rest

def itemToValue : Item → Value
  | .value v => v
  | .table t => t.toValue
  | .tables latest before => .array ((latest.toValue :: allToValue before).reverse)

def allToValue : List Table → List Value
  | [] => []
  | t :: ts => t.toValue :: allToValue ts

end

end Table

/-! ## Layout -/

def isSpace (c : Char) : Bool := c == ' ' || c == '\t'

def skipSpaces : Parser Unit := do
  let _ ← Parser.takeWhile isSpace

def newline : Parser Unit := fun cs =>
  match cs with
  | '\n' :: rest => some ((), rest)
  | '\r' :: '\n' :: rest => some ((), rest)
  | _ => none

def comment : Parser Unit := do
  Parser.char '#'
  let _ ← Parser.takeWhile isTextChar

/-- What may follow a statement on its line, up to the end of the line. -/
def restOfLine : Parser Unit := do
  skipSpaces
  let _ ← Parser.option comment
  newline <|> Parser.atEnd

/-- Spaces, line breaks and comments between the items of an array. -/
def skipLayout : Parser Unit := do
  let _ ← Parser.many (do
    skipSpaces
    let _ ← Parser.option comment
    newline)
  skipSpaces

/-! ## Keys and values -/

def simpleKey : Parser String := do
  match ← Parser.peek with
  | some '"' | some '\'' => lineString
  | _ =>
    let first ← Parser.satisfy Value.isBareKeyChar
    let more ← Parser.takeWhile Value.isBareKeyChar
    return String.ofList (first :: more)

/-- A dotted key, with spaces around its parts. -/
def key : Parser (List String) := do
  let part : Parser String := do
    skipSpaces
    let k ← simpleKey
    skipSpaces
    return k
  let first ← part
  let more ← Parser.many (do Parser.char '.'; part)
  if (first :: more).length ≤ maxDepth then return first :: more else failure

/-- A key, its value by the given parser, and the spaces between. -/
def pair (value : Parser Value) : Parser (List String × Value) := do
  let k ← key
  Parser.char '='
  skipSpaces
  let v ← value
  return (k, v)

def array (item : Parser Value) : Parser Value := do
  Parser.char '['
  let padded : Parser Value := do
    skipLayout
    let v ← item
    skipLayout
    return v
  match ← Parser.option padded with
  | none =>
    skipLayout
    Parser.char ']'
    return .array []
  | some first =>
    let more ← Parser.many (do Parser.char ','; padded)
    let _ ← Parser.option (Parser.char ',')
    skipLayout
    Parser.char ']'
    return .array (first :: more)

def inlineTable (value : Parser Value) : Parser Value := do
  Parser.char '\x7b'
  let padded : Parser (List String × Value) := do
    let kv ← pair value
    skipSpaces
    return kv
  let pairs ← match ← Parser.option padded with
    | none => pure []
    | some first =>
      let more ← Parser.many (do Parser.char ','; padded)
      pure (first :: more)
  skipSpaces
  Parser.char '\x7d'
  match (Table.explicit []).addAll pairs with
  | some t => return t.toValue
  | none => failure

/-- A value that may be nested `depth` levels deep. -/
def value (depth : Nat) : Parser Value := do
  match ← Parser.peek with
  | some '"' | some '\'' => return .string (← quotedString)
  | some '[' =>
    match depth with
    | 0 => failure
    | depth + 1 => array (value depth)
  | some '\x7b' =>
    match depth with
    | 0 => failure
    | depth + 1 => inlineTable (value depth)
  | some 't' => Parser.word "true"; return .boolean true
  | some 'f' => Parser.word "false"; return .boolean false
  | some 'i' | some 'n' => specialFloat
  | _ => number

/-! ## Statements -/

/-- A line of a document that says something. -/
inductive Statement where
  /-- Opens a table, or with `repeats` the next table of an array. -/
  | header (repeats : Bool) (path : List String)
  | pair (path : List String) (v : Value)

def header : Parser Statement := fun cs =>
  match cs with
  | '[' :: '[' :: rest => (do
      let path ← key
      Parser.word "]]"
      return Statement.header true path : Parser Statement) rest
  | '[' :: rest => (do
      let path ← key
      Parser.char ']'
      return Statement.header false path : Parser Statement) rest
  | _ => none

/-- The statement of a line, if the line has one. -/
def line : Parser (Option Statement) := do
  skipSpaces
  match ← Parser.peek with
  | some '#' | some '\n' | some '\r' =>
    let _ ← Parser.option comment
    newline <|> Parser.atEnd
    return none
  | some '[' =>
    let s ← header
    restOfLine
    return some s
  | _ =>
    let (path, v) ← pair (value maxDepth)
    restOfLine
    return some (.pair path v)

/-- The statements of a text, which may start with a byte order mark. -/
def statements (text : String) : Option (List Statement) :=
  let cs := match text.toList with
    | '\ufeff' :: cs => cs
    | cs => cs
  let parser : Parser (List Statement) := do
    let lines ← Parser.many line
    skipSpaces
    Parser.atEnd
    return lines.filterMap id
  (parser cs).map Prod.fst

/-! ## Building -/

/-- A header, if any, and the pairs below it. -/
structure Section where
  header : Option (Bool × List String)
  pairs : List (List String × Value)

/-- Groups statements into sections; the first one has no header. -/
def sections : List Statement → List Section
  | [] => [⟨none, []⟩]
  | .header repeats path :: rest =>
    match sections rest with
    | [] => []
    | first :: others => ⟨none, []⟩ :: ⟨some (repeats, path), first.pairs⟩ :: others
  | .pair path v :: rest =>
    match sections rest with
    | [] => []
    | first :: others => ⟨none, (path, v) :: first.pairs⟩ :: others

/-- Adds a table to the array at a key. -/
def addRepeated (pairs : List (List String × Value)) (key : String) (parent : Table) :
    Option Table := do
  let filled ← (Table.explicit []).addAll pairs
  match parent.find? key with
  | none => return parent.set key (.tables filled [])
  | some (.tables latest before) => return parent.set key (.tables filled (latest :: before))
  | some _ => none

/-- Opens the table at a key, which may only be there because another path implied it. The table
then comes last among the entries. -/
def addOpened (pairs : List (List String × Value)) (key : String) (parent : Table) :
    Option Table := do
  match parent.find? key with
  | none =>
    let filled ← (Table.explicit []).addAll pairs
    return parent.set key (.table filled)
  | some (.table t) =>
    if t.implied && !t.dotted then
      let filled ← (Table.explicit t.entries).addAll pairs
      return (parent.erase key).set key (.table filled)
    else none
  | some _ => none

/-- Adds a section to a document. -/
def addSection (root : Table) (s : Section) : Option Table :=
  match s.header with
  | none => root.addAll s.pairs
  | some (repeats, path) => do
    let key ← path.getLast?
    root.modifyAt false (if repeats then addRepeated s.pairs key else addOpened s.pairs key)
      path.dropLast

/-- Reads a document; the result is its table's entries. -/
def parse (text : String) : Option (List (String × Value)) := do
  let root ← (sections (← statements text)).foldlM addSection (Table.explicit [])
  match root.toValue with
  | .table entries => some entries
  | _ => none

end ConcurrencyLint.Toml
