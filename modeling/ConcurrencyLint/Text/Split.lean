/-!
# Cutting text into pieces
-/

namespace ConcurrencyLint.Text

/-- The pieces between the occurrences of a separator; there is always at least one. -/
def splitAt (sep : Char) : List Char → List (List Char)
  | [] => [[]]
  | c :: cs =>
    if c = sep then [] :: splitAt sep cs
    else match splitAt sep cs with
      | [] => [[c]]
      | piece :: pieces => (c :: piece) :: pieces

/-- What stands before and after the first occurrence of a character. -/
def cutAt (c : Char) : List Char → Option (List Char × List Char)
  | [] => none
  | d :: cs => if d = c then some ([], cs) else (cutAt c cs).map fun (l, r) => (d :: l, r)

/-- Drops one carriage return from the end of a line. -/
def dropReturn (line : List Char) : List Char :=
  if line.getLast? = some '\r' then line.dropLast else line

/-- The lines of a text whose first line begins with `begun`, in reverse. -/
def linesFrom (begun : List Char) : List Char → List (List Char)
  | [] => if begun.isEmpty then [] else [begun.reverse]
  | c :: cs =>
    if c = '\n' then dropReturn begun.reverse :: linesFrom [] cs else linesFrom (c :: begun) cs

/-- The lines of a text. A line ends at a line feed, with one carriage return before it dropped; a
text that ends in a line feed has no further line. -/
def lines (text : List Char) : List (List Char) := linesFrom [] text

/-- Joins pieces with a separator. -/
def joinWith (sep : String) : List String → String
  | [] => ""
  | s :: rest => rest.foldl (fun joined t => joined ++ sep ++ t) s

end ConcurrencyLint.Text
