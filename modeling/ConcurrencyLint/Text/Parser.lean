/-!
# Parsers over character lists

A parser takes something off the front of the text or fails. An alternative starts again where the
failed one started.
-/

namespace ConcurrencyLint.Text

/-- Reads a value off the front of a text, if the text starts with one. -/
abbrev Parser := StateT (List Char) Option

namespace Parser

variable {α : Type}

/-- The next character, left in place. -/
def peek : Parser (Option Char) := fun cs => some (cs.head?, cs)

/-- The next character, if it passes the test. -/
def satisfy (test : Char → Bool) : Parser Char
  | [] => none
  | c :: cs => if test c then some (c, cs) else none

/-- Reads one given character. -/
def char (c : Char) : Parser Unit := do
  let _ ← satisfy (· == c)

/-- Reads a given word. -/
def word (w : String) : Parser Unit := fun cs =>
  (w.toList.isPrefixOf? cs).map fun rest => ((), rest)

/-- The longest run of characters that pass the test; possibly none. -/
def takeWhile (test : Char → Bool) : Parser (List Char) := fun cs => some (cs.span test)

/-- The end of the text. -/
def atEnd : Parser Unit
  | [] => some ((), [])
  | _ :: _ => none

/-- What the parser reads, if it reads anything. -/
def option (p : Parser α) : Parser (Option α) := fun cs =>
  match p cs with
  | some (a, rest) => some (some a, rest)
  | none => some (none, cs)

/-- What the parser reads when run again and again until it fails, at most as often as `bound` has
characters. -/
def manyWithin (p : Parser α) : (bound : List Char) → List Char → List α × List Char
  | [], cs => ([], cs)
  | _ :: bound, cs =>
    match p cs with
    | none => ([], cs)
    | some (a, rest) =>
      let (more, rest) := manyWithin p bound rest
      (a :: more, rest)

/-- What the parser reads when run again and again until it fails. The text itself is bound enough
for a parser that takes a character whenever it succeeds. -/
def many (p : Parser α) : Parser (List α) := fun cs => some (manyWithin p cs cs)

/-- Exactly `n` characters that pass the test. -/
def exactly (test : Char → Bool) : Nat → Parser (List Char)
  | 0 => pure []
  | n + 1 => do
    let c ← satisfy test
    let more ← exactly test n
    return c :: more

end Parser

end ConcurrencyLint.Text
