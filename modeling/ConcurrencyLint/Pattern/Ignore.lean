import ConcurrencyLint.Pattern.Ignore.Reach
import ConcurrencyLint.Text.Blank
import ConcurrencyLint.Text.Split

/-!
# Ignore files

The patterns of `.gitignore` and `.ignore` files. A line ignores the paths that it matches, or with
`!` keeps them; of several lines that match, the last one decides. Matching works on bytes, and
wildcards other than `**` stay within one path component.
-/

namespace ConcurrencyLint.Ignore

/-- One line of an ignore file. -/
structure Line where
  /-- The line keeps what it matches. -/
  keeps : Bool
  directoriesOnly : Bool
  tokens : List Token

/-- The pattern proper of a line, from its text after any marks. A pattern without a separator
matches at every depth; one that ends in `/**` matches what is inside only. -/
def completed (anchored : Bool) (pattern : List Char) : List Char :=
  let deep := "**/".toList
  let anywhere :=
    if !anchored && !pattern.contains '/' && !deep.isPrefixOf pattern && pattern != "**".toList then
      deep ++ pattern
    else pattern
  if "/**".toList.isSuffixOf anywhere then anywhere ++ "/*".toList else anywhere

/-- Reads a line. Comments, empty lines and bad patterns give nothing. -/
def Line.parse (text : List Char) : Option Line := do
  if text.head? = some '#' then none
  let text := if "\\ ".toList.isSuffixOf text then text else Text.trimEnd text
  if text.isEmpty then none
  let (keeps, anchored, pattern) :=
    match text with
    | '\\' :: '!' :: rest => (false, false, '!' :: rest)
    | '\\' :: '#' :: rest => (false, false, '#' :: rest)
    | '!' :: '/' :: rest => (true, true, rest)
    | '!' :: rest => (true, false, rest)
    | '/' :: rest => (false, true, rest)
    | _ => (false, false, text)
  let directoriesOnly := pattern.getLast? = some '/'
  let pattern :=
    if directoriesOnly then
      let bare := pattern.dropLast
      if bare.getLast? = some '\\' then bare.dropLast else bare
    else pattern
  return ⟨keeps, directoriesOnly, ← compile (completed anchored pattern)⟩

/-- What an ignore file says about a path. -/
inductive Verdict where
  | silent
  | ignored
  | kept
  deriving DecidableEq, Repr

/-- The first verdict that is not silent. -/
def Verdict.orElse : Verdict → Verdict → Verdict
  | .silent, v => v
  | v, _ => v

/-- The verdict of the last line that matches. -/
def verdict (lines : List Line) (path : List UInt8) (isDirectory : Bool) : Verdict :=
  let applies (l : Line) : Bool :=
    (!l.directoriesOnly || isDirectory) && matchesPath l.tokens path
  match lines.reverse.find? applies with
  | none => .silent
  | some l => if l.keeps then .kept else .ignored

/-- The lines of a file, up to the first one that is not text. A carriage return before a line feed
belongs to it. -/
def textLines (content : ByteArray) : List (List Char) :=
  let pieces := (splitBytes [] content.toList).map fun bytes => String.fromUTF8? ⟨bytes.toArray⟩
  (pieces.takeWhile Option.isSome).filterMap fun piece => piece.map String.toList
where
  /-- The pieces between line feeds, given the piece begun in reverse. -/
  splitBytes (begun : List UInt8) : List UInt8 → List (List UInt8)
    | [] => if begun.isEmpty then [] else [begun.reverse]
    | b :: bs =>
      if b = 10 then
        (if begun.head? = some 13 then begun.tail else begun).reverse :: splitBytes [] bs
      else splitBytes (b :: begun) bs

/-- The lines of a file that say something. Byte order marks at the start are passed over. -/
def parse (content : ByteArray) : List Line :=
  let lines := match textLines content with
    | first :: others => first.dropWhile (· == '\ufeff') :: others
    | [] => []
  lines.filterMap Line.parse

end ConcurrencyLint.Ignore
